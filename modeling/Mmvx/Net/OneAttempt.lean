/-
  At most one attempt of a `Connector`, and what can end that.

  Proper steps keep the invariant of `Mmvx.Net.Connector`. One improper step is enough to break it
  (`breaks_of_improper`): a second `startInLoop` then finds a socket in progress, or the channel of
  the last attempt. So `Proper` is the condition under which the assertions of `startInLoop` and
  `connecting` hold (`one_attempt`).
-/
import Mmvx.Net.Connector

namespace Mmvx.Net.Connector

open Mmvx.Lib

/-- The same action, with a `connect(2)` that is in progress. -/
def inProgress : ConnectorAction → ConnectorAction
  | .start inLoop _ => .start inLoop .EINPROGRESS
  | .restart _ => .restart .EINPROGRESS
  | .functor _ => .functor .EINPROGRESS
  | .timer _ => .timer .EINPROGRESS
  | a => a

/-- Proper steps lead from here to two attempts. -/
def Breaks (c : Connector) : Prop := ∃ c', Reaches step Proper c c' ∧ ¬ OneAttempt c'

variable {c c' : Connector}

theorem Breaks.of_step {a : ConnectorAction} (hp : c.Proper a) (hs : c.step a = some c')
    (h : Breaks c') : Breaks c := by
  obtain ⟨c'', hreach, hnot⟩ := h
  have hfirst : Reaches step Proper c c' := .step .refl hp hs
  exact ⟨c'', hfirst.trans hreach, hnot⟩

theorem breaks_of_misentered (h : c.misentered = true) : Breaks c := by
  refine ⟨c, .refl, ?_⟩
  intro hone
  rw [hone.entered] at h
  cases h

theorem breaks_of_overwritten (h : c.overwritten = true) : Breaks c := by
  refine ⟨c, .refl, ?_⟩
  intro hone
  rw [hone.fresh] at h
  cases h

/-! ## `startInLoop` at the wrong time -/

theorem breaks_start_state (hconnect : c.connect_ = true) (hstate : c.state_ ≠ .kDisconnected) :
    Breaks (c.startInLoop .EINPROGRESS) := by
  refine breaks_of_misentered ?_
  simp [startInLoop, assertDisconnected, hconnect, connect, createSocket, connecting, hstate]

theorem breaks_start_channel (hconnect : c.connect_ = true) (hchan : c.channel_ ≠ none) :
    Breaks (c.startInLoop .EINPROGRESS) := by
  refine breaks_of_overwritten ?_
  simp [startInLoop, assertDisconnected, hconnect, connect, createSocket, connecting,
    Option.isSome_iff_ne_none, hchan]

theorem breaks_functor {f : ConnectorFunctor} {fs : List ConnectorFunctor}
    (hfs : c.pendingFunctors_ = f :: fs)
    (hf : { c with pendingFunctors_ := fs }.doFunctor .EINPROGRESS f = some c') (h : Breaks c') :
    Breaks c := by
  refine h.of_step (a := .functor .EINPROGRESS) trivial ?_
  dsimp only [step]
  rw [hfs]
  exact hf

/-- Functors that only stop or reset, between attempts. -/
theorem breaks_resting (fs rest : List ConnectorFunctor) (hstart : .startInLoop ∉ fs)
    (hfs : c.pendingFunctors_ = fs ++ rest) (hstate : c.state_ ≠ .kConnecting)
    (h : Breaks { c with
      pendingFunctors_ := rest
      channel_ := if .resetChannel ∈ fs then none else c.channel_ }) : Breaks c := by
  induction fs generalizing c with
  | nil =>
    have heq : c = { c with pendingFunctors_ := rest, channel_ := c.channel_ } := by
      cases c
      cases hfs
      rfl
    rw [heq]
    exact h
  | cons f fs ih =>
    obtain ⟨hf, hnot⟩ := not_or.mp (mt List.mem_cons.mpr hstart)
    cases f with
    | startInLoop => exact absurd rfl hf
    | stopInLoop =>
      refine breaks_functor hfs (if_neg hstate) (ih hnot rfl hstate ?_)
      simpa using h
    | resetChannel =>
      refine breaks_functor hfs rfl (ih hnot rfl hstate ?_)
      simpa [resetChannel] using h

/-- A `startInLoop` comes before the channel of the last attempt is reset. -/
theorem breaks_early (fs rest : List ConnectorFunctor) (hstops : ∀ f ∈ fs, f = .stopInLoop)
    (hfs : c.pendingFunctors_ = fs ++ .startInLoop :: rest) (hconnect : c.connect_ = true)
    (hstate : c.state_ ≠ .kConnecting) (hchan : c.channel_ ≠ none) : Breaks c := by
  have hno {f : ConnectorFunctor} (hf : f ≠ .stopInLoop) : f ∉ fs := fun hmem => hf (hstops f hmem)
  refine breaks_resting fs _ (hno (by simp)) hfs hstate ?_
  rw [if_neg (hno (by simp))]
  exact breaks_functor rfl rfl (breaks_start_channel hconnect hchan)

/-- A `startInLoop` comes while a socket is in progress: it finds the socket, or what a `stopInLoop`
    before it has left. -/
theorem breaks_trying (fs rest : List ConnectorFunctor) (hstops : ∀ f ∈ fs, f = .stopInLoop)
    (hfs : c.pendingFunctors_ = fs ++ .startInLoop :: rest) (hconnect : c.connect_ = true)
    (hstate : c.state_ = .kConnecting) {fd : Nat} (hchan : c.channel_ = some ⟨fd, true⟩) :
    Breaks c := by
  cases fs with
  | nil =>
    refine breaks_functor hfs rfl (breaks_start_state hconnect ?_)
    rw [hstate]
    simp
  | cons f fs =>
    obtain rfl := hstops f List.mem_cons_self
    obtain ⟨q, hq⟩ : ∃ q, q = fs ++ .startInLoop :: rest := ⟨_, rfl⟩
    rw [List.cons_append, ← hq] at hfs
    have hstopped : { c with pendingFunctors_ := q }.stopInLoop = some
        (({ c with pendingFunctors_ := q, state_ := .kDisconnected }.removed fd).retry fd) := by
      simp [stopInLoop, removeAndResetChannel, hstate, hchan, removed]
    refine breaks_functor hfs hstopped ?_
    obtain ⟨n, ms, -, heq⟩ :=
      retry_eq ({ c with pendingFunctors_ := q, state_ := .kDisconnected }.removed fd) fd
    rw [heq]
    refine breaks_early fs (rest ++ [.resetChannel])
      (fun f hf => hstops f (List.mem_cons_of_mem _ hf)) ?_ hconnect (by simp) ?_
    · simp [removed, queueInLoop, hq]
    · simp [removed, queueInLoop]

/-- A retry timer fires while a socket is in progress. -/
theorem breaks_timer (htimers : 0 < c.timers) (hconnect : c.connect_ = true)
    (hstate : c.state_ = .kConnecting) (hreset : .resetChannel ∉ c.pendingFunctors_) :
    Breaks c := by
  refine Breaks.of_step (a := .timer .EINPROGRESS) (fun _ => hreset) (if_pos htimers) ?_
  refine breaks_start_state hconnect ?_
  dsimp only
  rw [hstate]
  simp

/-- The socket in progress becomes a second connection. -/
theorem breaks_event (hdelivered : 0 < c.delivered) (hconnect : c.connect_ = true)
    (hstate : c.state_ = .kConnecting) (fd : Nat) (hchan : c.channel_ = some ⟨fd, true⟩) :
    Breaks c := by
  have hevent : c.step (.event false true 0 false) = some { c.removed fd with
      state_ := .kConnected
      sockets := c.sockets.erase fd
      delivered := c.delivered + 1 } := by
    simp [step, handleEvent, handleWrite, removeAndResetChannel, hstate, hchan, removed,
      queueInLoop, hconnect]
  refine Breaks.of_step (a := .event false true 0 false) trivial hevent ⟨_, .refl, ?_⟩
  intro hone
  have hle : c.delivered + 1 ≤ 1 := hone.delivered
  omega

/-! ## Improper steps -/

/-- Without a channel there is no reset to come. -/
theorem Single.resetChannel_mem (h : Single c) (hstate : c.state_ ≠ .kConnecting) :
    .resetChannel ∈ c.pendingFunctors_ ↔ c.channel_ ≠ none := by
  rw [← List.count_pos_iff]
  rcases (h.resting hstate).2 with ⟨hchan, hcount⟩ | ⟨fd, hchan, hcount⟩
  · simp [hchan, hcount]
  · simp [hchan, hcount]

/-- An attempt begins although another one is to come, or a connection is there. -/
theorem breaks_begun (hconnect : c.connect_ = true) (hreset : .resetChannel ∉ c.pendingFunctors_)
    (hbusy : 0 < c.starts ∨ 0 < c.delivered) : Breaks (c.startInLoop .EINPROGRESS) := by
  have hbegun : c.startInLoop .EINPROGRESS =
      c.assertDisconnected.createSocket.connecting c.nextFd := by
    simp [startInLoop, assertDisconnected, hconnect, connect]
  rw [hbegun]
  by_cases hdelivered : 0 < c.delivered
  · exact breaks_event hdelivered hconnect rfl c.nextFd rfl
  have hstarts := hbusy.resolve_right hdelivered
  unfold starts at hstarts
  by_cases htimers : 0 < c.timers
  · exact breaks_timer htimers hconnect rfl hreset
  · have hmem : .startInLoop ∈ c.pendingFunctors_ := List.count_pos_iff.mp (by omega)
    obtain ⟨fs, rest, hfs, hfirst⟩ := List.eq_append_cons_of_mem hmem
    refine breaks_trying fs rest ?_ hfs hconnect rfl rfl
    intro f hf
    cases f with
    | startInLoop => exact absurd hf hfirst
    | stopInLoop => rfl
    | resetChannel =>
      rw [hfs] at hreset
      exact absurd (List.mem_append_left _ hf) hreset

/-- The same, when the attempt begins with the next `startInLoop` of the queue. -/
theorem breaks_queued (fs rest : List ConnectorFunctor)
    (hfs : c.pendingFunctors_ = fs ++ .startInLoop :: rest) (hstart : .startInLoop ∉ fs)
    (hreset : .resetChannel ∉ rest) (hstate : c.state_ ≠ .kConnecting)
    (hconnect : c.connect_ = true) (hbusy : .startInLoop ∈ rest ∨ 0 < c.timers) : Breaks c := by
  refine breaks_resting fs _ hstart hfs hstate (breaks_functor rfl rfl ?_)
  refine breaks_begun hconnect hreset (Or.inl ?_)
  unfold starts
  dsimp only
  rcases hbusy with hmem | htimers
  · have hpos := List.count_pos_iff.mpr hmem
    omega
  · omega

/-- `start()` from another thread at the wrong time. -/
theorem breaks_queueStart (h : Single c) (hnot : ¬ (c.state_ = .kDisconnected ∧ c.starts = 0)) :
    Breaks ({ c with connect_ := true }.queueInLoop .startInLoop) := by
  by_cases hstarts : c.starts = 0
  · have hno := not_mem_of_starts hstarts
    by_cases hstate : c.state_ = .kConnecting
    · obtain ⟨fd, hchan, -, hcount⟩ := h.trying hstate
      refine breaks_trying c.pendingFunctors_ [] ?_ rfl rfl hstate hchan
      intro f hf
      cases f with
      | startInLoop => exact absurd hf hno
      | stopInLoop => rfl
      | resetChannel => exact absurd hf (List.count_eq_zero.mp hcount)
    · refine breaks_resting c.pendingFunctors_ [.startInLoop] hno rfl hstate
        (breaks_functor rfl rfl (breaks_start_state rfl ?_))
      exact fun hdis => hnot ⟨hdis, hstarts⟩
  · have hpos := Nat.pos_of_ne_zero hstarts
    have hstate : c.state_ ≠ .kConnecting := by rw [h.ready hpos]; simp
    by_cases hin : .startInLoop ∈ c.pendingFunctors_
    · obtain ⟨fs, rest, hfs, hfirst⟩ := List.eq_append_cons_of_mem hin
      have horder := h.order
      rw [hfs, List.pairwise_append, List.pairwise_cons] at horder
      have hlater : .resetChannel ∉ rest := fun hr => horder.2.1.1 _ hr rfl rfl
      refine breaks_queued fs (rest ++ [.startInLoop]) ?_ hfirst ?_ hstate rfl (Or.inl (by simp))
      · simp [queueInLoop, hfs]
      · simp [hlater]
    · unfold starts at hpos
      rw [List.count_eq_zero.mpr hin] at hpos
      refine breaks_queued c.pendingFunctors_ [] rfl hin (by simp) hstate rfl (Or.inr ?_)
      show 0 < c.timers
      omega

/-- Every improper step can break it, by proper ones that follow. -/
theorem breaks_of_improper (h : Single c) {a : ConnectorAction} (hnot : ¬ c.Proper a)
    (hs : c.step (inProgress a) = some c') : Breaks c' := by
  cases a with
  | start inLoop savedErrno =>
    obtain rfl := Option.some.inj hs
    cases inLoop with
    | false =>
      refine breaks_queueStart h ?_
      rintro ⟨hstate, hstarts⟩
      exact hnot ⟨hstate, hstarts, fun hin => by cases hin⟩
    | true =>
      show Breaks ({ c with connect_ := true }.startInLoop .EINPROGRESS)
      by_cases hstate : c.state_ = .kDisconnected
      · by_cases hchan : c.channel_ = none
        · have hreset : .resetChannel ∉ c.pendingFunctors_ := by
            rw [h.resetChannel_mem (by rw [hstate]; simp)]
            exact fun hne => hne hchan
          refine breaks_begun rfl hreset (Or.inl (Nat.pos_of_ne_zero ?_))
          exact fun hstarts => hnot ⟨hstate, hstarts, fun _ => hreset⟩
        · exact breaks_start_channel rfl hchan
      · exact breaks_start_state rfl hstate
  | restart savedErrno =>
    obtain rfl := Option.some.inj hs
    by_cases hchan : c.channel_ = none
    · have hstate : c.state_ ≠ .kConnecting := by
        intro hs
        obtain ⟨fd, hsome, -⟩ := h.trying hs
        rw [hchan] at hsome
        cases hsome
      have hreset : .resetChannel ∉ c.pendingFunctors_ := by
        rw [h.resetChannel_mem hstate]
        exact fun hne => hne hchan
      refine breaks_begun rfl hreset ?_
      by_contra hidle
      obtain ⟨hstarts, hdelivered⟩ := not_or.mp hidle
      exact hnot ⟨hstate, Nat.eq_zero_of_not_pos hstarts, Nat.eq_zero_of_not_pos hdelivered, hreset⟩
    · exact breaks_start_channel rfl hchan
  | timer savedErrno =>
    dsimp only [inProgress, step] at hs
    split at hs
    · rename_i hpos
      obtain rfl := Option.some.inj hs
      obtain ⟨hconnect, hreset⟩ := Classical.not_imp.mp hnot
      have hstate : c.state_ = .kDisconnected := by
        refine h.ready ?_
        unfold starts
        omega
      refine breaks_start_channel hconnect ?_
      exact (h.resetChannel_mem (by rw [hstate]; simp)).mp (not_not.mp hreset)
    · cases hs
  | stop => exact absurd trivial hnot
  | functor savedErrno => exact absurd trivial hnot
  | event error writable err selfConnect => exact absurd trivial hnot
  | closed => exact absurd trivial hnot

/-- **At most one connection attempt.** In every run of proper steps, whatever the sockets answer,
    `startInLoop` is only entered when the connector is disconnected, `connecting()` only without a
    channel, and there is never more than one socket in progress or one connection. And this is the
    right condition: a step at which a `connect(2)` would be in progress can be followed by proper
    steps only to such states if and only if it is proper. -/
theorem one_attempt_iff (h : Reaches step Proper init c) :
    OneAttempt c ∧ ∀ a c₁, c.step (inProgress a) = some c₁ →
      ((∀ c', Reaches step Proper c₁ c' → OneAttempt c') ↔ c.Proper a) := by
  have hsingle := single_reaches h
  refine ⟨hsingle.oneAttempt, ?_⟩
  intro a c₁ hs
  constructor
  · intro hall
    by_contra hnot
    obtain ⟨c', hreach, hbad⟩ := breaks_of_improper hsingle hnot hs
    exact hbad (hall c' hreach)
  · intro hproper c' hreach
    have hproper' : c.Proper (inProgress a) := by
      cases a <;> exact hproper
    exact (single_reaches ((h.step hproper' hs).trans hreach)).oneAttempt

/-- A connection is delivered and lost, and a second attempt is refused. -/
theorem one_attempt_retry :
    ∃ c, Reaches step Proper init c ∧ c.timers = 1 ∧ OneAttempt c := by
  obtain ⟨c, hreach, htimers⟩ : ∃ c, Reaches step Proper init c ∧ c.timers = 1 :=
    exists_reaches [.start false .none, .functor .EINPROGRESS, .event false true 0 false,
      .functor .none, .closed, .restart .ECONNREFUSED] (by decide)
  exact ⟨c, hreach, htimers, (one_attempt_iff hreach).1⟩

/-- `stop()` does not cancel the retry timer: it fires while the next attempt is in progress. -/
theorem two_attempts :
    ¬ ∀ c, Reaches step (fun _ _ => True) init c → OneAttempt c := by
  intro h
  obtain ⟨c, hreach, hentered, hsockets⟩ : ∃ c, Reaches step (fun _ _ => True) init c ∧
      c.misentered = true ∧ c.sockets.length = 2 :=
    exists_reaches [.start true .ECONNREFUSED, .stop, .functor .none, .start true .EINPROGRESS,
      .timer .EINPROGRESS] (by decide)
  have hone := (h c hreach).sockets
  omega

end Mmvx.Net.Connector
