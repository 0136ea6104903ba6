import Nport.Endpoint

/-! What a port task has done, by the phase it is in: the bytes written against the messages
taken from the queue, and the bytes read against the messages emitted. -/
namespace PortHistory

open GuardedMachine
open PortTask
open Endpoint

def unwritten : Phase → Bytes
  | .writing rest => rest
  | _ => []

def unsent : Phase → List PortMessage
  | .sending m => [m]
  | _ => []

structure WriteSide (p : Port) : Prop where
  copied : p.written <+: bytesOf p.taken
  inLoop : p.phase.looping = true →
    p.written ++ unwritten p.phase = bytesOf p.taken ∧ .close ∉ p.taken
  onClose : p.phase.out = some .close → p.written = bytesOf p.taken ∧ .close ∈ p.taken
  closing : .close ∈ p.taken → p.phase.out = some .close

structure ReadSide (p : Port) : Prop where
  copied : bytesOf p.emitted <+: p.read
  inLoop : p.phase.looping = true →
    p.read = bytesOf (p.emitted ++ unsent p.phase) ∧ .close ∉ p.emitted
  onEof : p.phase.out = some .eof → .close ∈ p.emitted
  closing : .close ∈ p.emitted → p.phase.looping = false ∧ p.read = bytesOf p.emitted ∧
    ∃ pre, p.emitted = pre ++ [.close] ∧ .close ∉ pre

structure Sound (alive : Bool) (p : Port) : Prop where
  unborn : p.phase = .absent → p = .fresh
  writes : WriteSide p
  reads : ReadSide p
  onRelease : p.phase.out = some .released → alive = false

theorem fresh_writeSide : WriteSide .fresh := by
  constructor <;> simp [Port.fresh, Phase.looping, Phase.out, bytesOf]

theorem fresh_readSide : ReadSide .fresh := by
  constructor <;> simp [Port.fresh, Phase.looping, Phase.out, bytesOf]

theorem fresh_sound (alive : Bool) : Sound alive .fresh :=
  ⟨fun _ => rfl, fresh_writeSide, fresh_readSide, by simp [Port.fresh, Phase.out]⟩

section Sides

variable {p q : Port}

theorem WriteSide.stay (h : WriteSide p) (loop : p.phase.looping = true)
    (taken : q.taken = p.taken) (written : q.written = p.written)
    (rest : unwritten q.phase = unwritten p.phase) (out : q.phase.out = none) :
    WriteSide q := by
  obtain ⟨hw, hc⟩ := h.inLoop loop
  refine ⟨?_, ?_, by simp [out], ?_⟩
  · rw [taken, written]; exact h.copied
  · intro _
    rw [taken, written, rest]
    exact ⟨hw, hc⟩
  · rw [taken]
    exact fun k => absurd k hc

theorem WriteSide.leave (h : WriteSide p) (loop : p.phase.looping = true)
    (taken : q.taken = p.taken) (written : q.written = p.written) {why : Exit}
    (out : q.phase = .left why) (ne : why ≠ .close) : WriteSide q := by
  obtain ⟨_, hc⟩ := h.inLoop loop
  refine ⟨?_, by simp [out, Phase.looping], ?_, ?_⟩
  · rw [taken, written]; exact h.copied
  · simp [out, Phase.out, ne]
  · rw [taken]
    exact fun k => absurd k hc

theorem WriteSide.finish (h : WriteSide p) (taken : q.taken = p.taken)
    (written : q.written = p.written) (out : q.phase.out = p.phase.out)
    (loop : q.phase.looping = true → q.phase = p.phase) : WriteSide q := by
  refine ⟨?_, ?_, ?_, ?_⟩
  · rw [taken, written]; exact h.copied
  · intro hl
    rw [taken, written, loop hl]
    exact h.inLoop (loop hl ▸ hl)
  · rw [taken, written, out]; exact h.onClose
  · rw [taken, out]; exact h.closing

theorem ReadSide.stay (h : ReadSide p) (loop : p.phase.looping = true)
    (emitted : q.emitted = p.emitted) (read : q.read = p.read)
    (rest : unsent q.phase = unsent p.phase) (out : q.phase.out = none) : ReadSide q := by
  obtain ⟨hr, hc⟩ := h.inLoop loop
  refine ⟨?_, ?_, by simp [out], ?_⟩
  · rw [emitted, read]; exact h.copied
  · intro _
    rw [emitted, read, rest]
    exact ⟨hr, hc⟩
  · rw [emitted]
    exact fun k => absurd k hc

theorem ReadSide.leave (h : ReadSide p) (loop : p.phase.looping = true)
    (emitted : q.emitted = p.emitted) (read : p.read <+: q.read) {why : Exit}
    (out : q.phase = .left why) (ne : why ≠ .eof) : ReadSide q := by
  obtain ⟨_, hc⟩ := h.inLoop loop
  refine ⟨?_, by simp [out, Phase.looping], ?_, ?_⟩
  · rw [emitted]; exact h.copied.trans read
  · simp [out, Phase.out, ne]
  · rw [emitted]
    exact fun k => absurd k hc

theorem ReadSide.finish (h : ReadSide p) (emitted : q.emitted = p.emitted)
    (read : q.read = p.read) (out : q.phase.out = p.phase.out)
    (loop : q.phase.looping = true → q.phase = p.phase)
    (outside : p.phase.looping = false → q.phase.looping = false) : ReadSide q := by
  refine ⟨?_, ?_, ?_, ?_⟩
  · rw [emitted, read]; exact h.copied
  · intro hl
    rw [emitted, read, loop hl]
    exact h.inLoop (loop hl ▸ hl)
  · rw [emitted, out]; exact h.onEof
  · rw [emitted, read]
    exact fun k => ⟨outside (h.closing k).1, (h.closing k).2⟩

theorem ReadSide.sent (h : ReadSide p) {m : PortMessage} (hp : p.phase = .sending m)
    (emitted : q.emitted = p.emitted ++ [m]) (read : q.read = p.read)
    (data : m ≠ .close → q.phase = .select ∨ q.phase = .left .sendError)
    (close : m = .close → q.phase = .left .eof ∨ q.phase = .left .sendError) : ReadSide q := by
  obtain ⟨hr, hc⟩ := h.inLoop (by simp [hp, Phase.looping])
  have hr : p.read = bytesOf q.emitted := by simpa [hp, unsent, emitted] using hr
  by_cases hm : m = .close
  · subst hm
    have hq : q.phase.looping = false := by rcases close rfl with h | h <;> simp [h, Phase.looping]
    refine ⟨by simp [read, hr], by simp [hq], fun _ => by simp [emitted], fun _ => ?_⟩
    exact ⟨hq, by rw [read, hr], p.emitted, emitted, hc⟩
  · have hmem : .close ∉ q.emitted := by simp [emitted, hc, Ne.symm hm]
    refine ⟨by simp [read, hr], ?_, ?_, fun h => absurd h hmem⟩
    · rcases data hm with hq | hq
      · simpa [hq, read, hr, unsent] using fun _ => hmem
      · simp [hq, Phase.looping]
    · rcases data hm with hq | hq <;> simp [hq, Phase.out]

end Sides

theorem writeSide_step {alive : Bool} {p q : Port} (h : PortStep alive p q)
    (unborn : p.phase = .absent → p = .fresh) (hs : WriteSide p) : WriteSide q := by
  have loop (hp : p.phase = .select) : p.phase.looping = true := by simp [hp, Phase.looping]
  cases h with
  | register hp =>
    obtain rfl := unborn hp
    constructor <;> simp [Port.fresh, Phase.looping, Phase.out, bytesOf, unwritten]
  | push m hp => exact hs.finish rfl rfl rfl (fun _ => rfl)
  | pop m rest hp hq =>
    obtain ⟨hw, hc⟩ := hs.inLoop (loop hp)
    have hw : p.written = bytesOf p.taken := by simpa [hp, unwritten] using hw
    cases m with
    | data bytes =>
      constructor <;> simp [onMessage, Phase.looping, Phase.out, unwritten, bytesOf, hw, hc]
    | close =>
      constructor <;> simp [onMessage, Phase.looping, Phase.out, bytesOf, hw]
  | write rest count hp =>
    obtain ⟨hw, hc⟩ := hs.inLoop (by simp [hp, Phase.looping])
    have hall : p.written ++ rest = bytesOf p.taken := by simpa [hp, unwritten] using hw
    refine ⟨?_, ?_, by simp [Phase.out], fun h => absurd h hc⟩
    · rw [← hall]
      exact (List.prefix_append_right_inj _).mpr (List.take_prefix _ _)
    · simp [unwritten, hall, hc]
  | wrote hp => exact hs.stay (by simp [hp, Phase.looping]) rfl rfl (by simp [hp, unwritten]) rfl
  | writeFail rest hp => exact hs.leave (by simp [hp, Phase.looping]) rfl rfl rfl (by simp)
  | readBytes bytes hp _ => exact hs.stay (loop hp) rfl rfl (by simp [hp, unwritten]) rfl
  | readLate bytes hp _ => exact hs.leave (loop hp) rfl rfl rfl (by simp)
  | readError hp => exact hs.leave (loop hp) rfl rfl rfl (by simp)
  | released hp _ => exact hs.leave (loop hp) rfl rfl rfl (by simp)
  | sentData bytes hp =>
    exact hs.stay (by simp [hp, Phase.looping]) rfl rfl (by simp [hp, unwritten]) rfl
  | sentClose hp => exact hs.leave (by simp [hp, Phase.looping]) rfl rfl rfl (by simp)
  | sendFail m hp => exact hs.leave (by simp [hp, Phase.looping]) rfl rfl rfl (by simp)
  | teardown why hp _ | abandon why hp _ | remove why hp =>
    exact hs.finish rfl rfl (by simp [hp, Phase.out]) (by simp [Phase.looping])
  | forget => exact hs.finish rfl rfl rfl (fun _ => rfl)

theorem readSide_step {alive : Bool} {p q : Port} (h : PortStep alive p q)
    (unborn : p.phase = .absent → p = .fresh) (hs : ReadSide p) : ReadSide q := by
  have loop (hp : p.phase = .select) : p.phase.looping = true := by simp [hp, Phase.looping]
  cases h with
  | register hp =>
    obtain rfl := unborn hp
    constructor <;> simp [Port.fresh, Phase.looping, Phase.out, bytesOf, unsent]
  | push m hp => exact hs.finish rfl rfl rfl (fun _ => rfl) id
  | pop m rest hp hq =>
    cases m with
    | data bytes => exact hs.stay (loop hp) rfl rfl (by simp [hp, onMessage, unsent]) rfl
    | close => exact hs.leave (loop hp) rfl List.prefix_rfl rfl (by simp)
  | write rest count hp =>
    exact hs.stay (by simp [hp, Phase.looping]) rfl rfl (by simp [hp, unsent]) rfl
  | wrote hp => exact hs.stay (by simp [hp, Phase.looping]) rfl rfl (by simp [hp, unsent]) rfl
  | writeFail rest hp =>
    exact hs.leave (by simp [hp, Phase.looping]) rfl List.prefix_rfl rfl (by simp)
  | readBytes bytes hp _ =>
    obtain ⟨hr, hc⟩ := hs.inLoop (loop hp)
    have hr : p.read = bytesOf p.emitted := by simpa [hp, unsent] using hr
    refine ⟨hs.copied.trans (List.prefix_append _ _), ?_, by simp [Phase.out],
      fun h => absurd h hc⟩
    simp [unsent, outgoing_bytes, hr, hc]
  | readLate bytes hp _ =>
    exact hs.leave (loop hp) rfl (List.prefix_append _ _) rfl (by simp)
  | readError hp => exact hs.leave (loop hp) rfl List.prefix_rfl rfl (by simp)
  | released hp _ => exact hs.leave (loop hp) rfl List.prefix_rfl rfl (by simp)
  | sentData bytes hp => exact hs.sent hp rfl rfl (fun _ => Or.inl rfl) (by simp)
  | sentClose hp => exact hs.sent hp rfl rfl (by simp) (fun _ => Or.inl rfl)
  | sendFail m hp => exact hs.sent hp rfl rfl (fun _ => Or.inr rfl) (fun _ => Or.inr rfl)
  | teardown why hp _ | abandon why hp _ | remove why hp =>
    exact hs.finish rfl rfl (by simp [hp, Phase.out]) (by simp [Phase.looping])
      (fun _ => by simp [Phase.looping])
  | forget => exact hs.finish rfl rfl rfl (fun _ => rfl) id

theorem PortStep.unborn {alive : Bool} {p q : Port} (h : PortStep alive p q)
    (before : p.phase = .absent → p = .fresh) (hq : q.phase = .absent) : q = .fresh := by
  cases h with
  | push m hp =>
    have hp' : p.phase = .absent := hq
    simp [hp', Phase.present] at hp
  | pop m rest hp _ => cases m <;> simp [onMessage] at hq
  | forget =>
    obtain rfl := before hq
    rfl
  | register | write | wrote | writeFail | readBytes | readLate | readError | released
  | sentData | sentClose | sendFail | teardown | abandon | remove => cases hq

theorem PortStep.onRelease {alive : Bool} {p q : Port} (h : PortStep alive p q)
    (before : p.phase.out = some .released → alive = false)
    (hq : q.phase.out = some .released) : alive = false := by
  cases h with
  | push m hp => exact before hq
  | pop m rest hp _ => cases m <;> simp [onMessage, Phase.out] at hq
  | forget => exact before hq
  | readLate bytes hp ha => exact ha
  | released hp ha => exact ha
  | teardown why hp _ | abandon why hp _ | remove why hp =>
    exact before (by simpa [hp, Phase.out] using hq)
  | register | write | wrote | writeFail | readBytes | readError | sentData | sentClose
  | sendFail => simp [Phase.out] at hq

theorem Sound.step {alive : Bool} {p q : Port} (hs : Sound alive p) (h : PortStep alive p q) :
    Sound alive q :=
  ⟨PortStep.unborn h hs.unborn, writeSide_step h hs.unborn hs.writes,
    readSide_step h hs.unborn hs.reads, PortStep.onRelease h hs.onRelease⟩

theorem Sound.mono {alive alive' : Bool} {p : Port} (hs : Sound alive p)
    (h : alive' = true → alive = true) : Sound alive' p := by
  refine ⟨hs.unborn, hs.writes, hs.reads, fun hr => ?_⟩
  have ha := hs.onRelease hr
  cases alive' <;> simp_all

variable {U : Type*} [DecidableEq U]

theorem next_alive (P : Program) {s : State U} {e : Event U}
    (h : (next P s e).alive = true) : s.alive = true := by
  by_cases hdrop : e = .drop
  · subst hdrop
    cases h
  · rwa [alive_next P hdrop] at h

theorem step_sound (P : Program) {s : State U} {e : Event U} (he : Enabled P s e)
    (hs : ∀ u, Sound s.alive (s.port u)) :
    ∀ u, Sound (next P s e).alive ((next P s e).port u) := by
  intro u
  refine Sound.mono ?_ (next_alive P)
  rcases next_port P he u with h | h
  · rw [h]; exact hs u
  · exact (hs u).step h

end PortHistory
