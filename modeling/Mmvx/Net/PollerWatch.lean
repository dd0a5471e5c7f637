/-
  What the two pollers watch, when the same calls are made on the channels of both.

  A channel that a poller knows is in a slot of `pollfds_` and in the kernel's list of `epoll`, with
  its events, unless it has none; `PollRep` and `EPollRep` say so for each poller, against the phase
  of each channel. The pollers lose track of each other in three ways. `PollPoller` does not make
  the descriptor of a slot positive again when events are enabled after all were disabled, and it
  keeps the index of a channel that was removed. Both watch a channel without events if it is
  updated when it has none. In every run, the pollers watch the channels with events, and nothing
  else, exactly as long as no call is one of these (`pollers_watch_same_iff`).
-/
import Mathlib.Data.Set.Defs
import Mmvx.Lib.Run
import Mmvx.Net.Poller

namespace Mmvx.Net.Poller

open Mmvx.Lib

section

variable {ι : Type} (fd : ι ↪ Nat)

/-- What `poll(2)` watches: the slots with a descriptor that is not negative. -/
def PollPoller.watched (p : PollPoller ι) : Set (Int × BitVec 32) :=
  fun x => ∃ pfd ∈ p.pollfds_, 0 ≤ pfd.fd ∧ x = (pfd.fd, pfd.events.signExtend 32)

/-- What `epoll(7)` watches. -/
def EPollPoller.watched (e : EPollPoller ι) : Set (Int × BitVec 32) :=
  fun x => ∃ i, e.epoll.find x.1 = some (x.2, i)

/-- The channels with events. -/
def wanted (channel : ι → Channel) : Set (Int × BitVec 32) :=
  fun x => ∃ i, (channel i).events_ ≠ kNoneEvent ∧ x = ((fd i : Int), (channel i).events_)

/-- Both pollers, each with its own channels; `none` after one has aborted. -/
structure Pollers (ι : Type) where
  poll : Option (PollPoller ι)
  epoll : Option (EPollPoller ι)

namespace Pollers

def start : Pollers ι := ⟨some .new, some .new⟩

/-- The same call for both. `remove` is called when no event is enabled only. -/
def step [DecidableEq ι] (s : Pollers ι) (a : ι × ChannelOp) : Option (Pollers ι) :=
  match s.poll, s.epoll with
  | some p, some e =>
    if a.2 = .remove → (p.channel a.1).isNoneEvent = true then
      some ⟨p.apply fd a.1 a.2, e.apply fd a.1 a.2⟩
    else none
  | _, _ => none

/-- Both pollers watch the channels with events, and the index of a channel that `PollPoller` knows
    is that of its own slot. -/
def SameWatch (s : Pollers ι) : Prop :=
  ∃ p e, s.poll = some p ∧ s.epoll = some e ∧
    p.watched = wanted fd p.channel ∧ e.watched = wanted fd p.channel ∧
    ∀ i, p.channels_.find (fd i) = some i → ∃ k : Nat, (p.channel i).index_ = k ∧
      ∃ pfd, p.pollfds_[k]? = some pfd ∧ (pfd.fd = fd i ∨ pfd.fd = -fd i - 1)

/-- A call on a channel keeps the pollers together: events are enabled for a channel that has some,
    or was never added, only; they are disabled for a channel that has some only; and a channel is
    removed that `PollPoller` knows. -/
def KeepsWatch (s : Pollers ι) (a : ι × ChannelOp) : Prop :=
  ∀ p, s.poll = some p →
    match a.2 with
    | .remove => p.channels_.find (fd a.1) = some a.1
    | op => (p.channel a.1).events_ ≠ kNoneEvent ∨
        op.mask (p.channel a.1).events_ ≠ kNoneEvent ∧ (p.channel a.1).index_ < 0

end Pollers

/-! ## The phases of a channel -/

/-- A channel was never added, is known with its events, or has been removed. -/
inductive Phase where
  | fresh
  | known (events : BitVec 32)
  | gone
  deriving DecidableEq, Repr

/-- The event masks that the calls make. -/
def Mask (m : BitVec 32) : Prop := m = 0 ∨ m = 3 ∨ m = 4 ∨ m = 7

theorem Mask.next {m : BitVec 32} (h : Mask m) (op : ChannelOp) : Mask (op.mask m) := by
  rcases h with rfl | rfl | rfl | rfl <;> cases op <;> unfold Mask <;> decide

/-- A `short` holds every mask. -/
theorem Mask.signExtend {m : BitVec 32} (h : Mask m) : (m.setWidth 16).signExtend 32 = m := by
  rcases h with rfl | rfl | rfl | rfl <;> decide

/-- The slot of a channel in `pollfds_`. -/
def slot (f : Nat) (m : BitVec 32) : PollFd :=
  ⟨if m = 0 then -f - 1 else f, m.setWidth 16⟩

/-- The descriptor of a slot, whether it is ignored or not. -/
def PollFd.descriptor (pfd : PollFd) : Int := if pfd.fd < 0 then -pfd.fd - 1 else pfd.fd

theorem descriptor_slot (f : Nat) (m : BitVec 32) : (slot f m).descriptor = f := by
  by_cases hm : m = 0
  · simp only [PollFd.descriptor, slot, if_pos hm]
    omega
  · simp only [PollFd.descriptor, slot, if_neg hm]
    omega

/-- What `PollPoller` holds for a channel. -/
def PollPoller.Holds (p : PollPoller ι) (i : ι) : Phase → Prop
  | .fresh => p.channel i = .new ∧ p.channels_.find (fd i) = none
  | .known m => Mask m ∧ (p.channel i).events_ = m ∧ p.channels_.find (fd i) = some i ∧
      ∃ k : Nat, (p.channel i).index_ = k ∧ p.pollfds_[k]? = some (slot (fd i) m)
  | .gone => (p.channel i).events_ = 0 ∧ 0 ≤ (p.channel i).index_ ∧
      p.channels_.find (fd i) = none

structure PollRep (p : PollPoller ι) (phase : ι → Phase) : Prop where
  holds : ∀ i, p.Holds fd i (phase i)
  owner : ∀ (k : Nat) pfd, p.pollfds_[k]? = some pfd →
    ∃ i m, phase i = .known m ∧ (p.channel i).index_ = k

/-- What `EPollPoller` and the kernel hold for a channel. -/
def EPollPoller.Holds (e : EPollPoller ι) (i : ι) : Phase → Prop
  | .fresh => e.channel i = .new ∧ e.channels_.find (fd i) = none ∧ e.epoll.find (fd i) = none
  | .known m => e.channel i = ⟨m, if m = 0 then kDeleted else kAdded⟩ ∧
      e.channels_.find (fd i) = some i ∧
      e.epoll.find (fd i) = if m = 0 then none else some (m, i)
  | .gone => e.channel i = ⟨0, kNew⟩ ∧ e.channels_.find (fd i) = none ∧
      e.epoll.find (fd i) = none

structure EPollRep (e : EPollPoller ι) (phase : ι → Phase) : Prop where
  holds : ∀ i, e.Holds fd i (phase i)
  listed : ∀ f x, e.epoll.find f = some x → ∃ i, f = fd i

/-- The calls that keep the pollers together, by the phase of the channel. -/
def Phase.Keeps (op : ChannelOp) : Phase → Prop
  | .fresh => op ≠ .remove ∧ op.mask 0 ≠ 0
  | .known m => op = .remove ∨ m ≠ 0
  | .gone => False

variable {fd} {p : PollPoller ι} {phase : ι → Phase}

/-! ## PollPoller -/

namespace PollRep

theorem holds_of (h : PollRep fd p phase) {i : ι} {x : Phase} (hi : phase i = x) :
    p.Holds fd i x := by
  rw [← hi]
  exact h.holds i

/-- No two channels are in one slot. -/
theorem index_inj (h : PollRep fd p phase) {i j : ι} {m m' : BitVec 32} (hi : phase i = .known m)
    (hj : phase j = .known m') (hk : (p.channel i).index_ = (p.channel j).index_) : i = j := by
  obtain ⟨-, -, -, k, hik, hislot⟩ := h.holds_of hi
  obtain ⟨-, -, -, k', hjk, hjslot⟩ := h.holds_of hj
  obtain rfl : k = k' := by omega
  have hslot : slot (fd i) m = slot (fd j) m' := Option.some.inj (hislot.symm.trans hjslot)
  have hfd := congrArg PollFd.descriptor hslot
  rw [descriptor_slot, descriptor_slot] at hfd
  exact fd.injective (by omega)

theorem index_lt (h : PollRep fd p phase) {i : ι} {m : BitVec 32} (hi : phase i = .known m)
    {k : Nat} (hk : (p.channel i).index_ = k) : k < p.pollfds_.length := by
  obtain ⟨-, -, -, k', hk', hslot⟩ := h.holds_of hi
  obtain rfl : k = k' := by omega
  exact (List.getElem?_eq_some_iff.mp hslot).1

/-- The channels other than `i` are as before, and so are their slots. -/
theorem holds_other {p' : PollPoller ι} (h : PollRep fd p phase) {j : ι}
    (hc : p'.channel j = p.channel j)
    (hf : p'.channels_.find (fd j) = p.channels_.find (fd j))
    (hs : ∀ m, phase j = .known m → ∀ k : Nat, (p.channel j).index_ = k →
      p'.pollfds_[k]? = p.pollfds_[k]?) : p'.Holds fd j (phase j) := by
  cases hj : phase j with
  | fresh =>
    obtain ⟨hnew, hnone⟩ := h.holds_of hj
    exact ⟨hc.trans hnew, hf.trans hnone⟩
  | known m =>
    obtain ⟨hm, he, hfind, k, hk, hslot⟩ := h.holds_of hj
    refine ⟨hm, ?_, hf.trans hfind, k, ?_, ?_⟩
    · rw [hc, he]
    · rw [hc, hk]
    · rw [hs m hj k hk, hslot]
  | gone =>
    obtain ⟨he, hidx, hnone⟩ := h.holds_of hj
    refine ⟨?_, ?_, hf.trans hnone⟩
    · rw [hc, he]
    · rw [hc]
      exact hidx

theorem fd_ne {i j : ι} (h : j ≠ i) : (fd j : Int) ≠ fd i := by
  intro he
  exact h (fd.injective (by omega))

variable [DecidableEq ι]

/-- A channel that was never added gets its first events. -/
theorem add (h : PollRep fd p phase) {i : ι} (hi : phase i = .fresh) {m : BitVec 32} (hm : m ≠ 0)
    (hmask : Mask m) :
    ∃ p', (p.setChannel i { p.channel i with events_ := m }).updateChannel fd i = some p' ∧
      PollRep fd p' (Function.update phase i (.known m)) := by
  obtain ⟨hnew, hnone⟩ := h.holds_of hi
  unfold PollPoller.updateChannel PollPoller.addChannel PollPoller.setChannel
  simp only [Function.update_self, hnew, Channel.new, hnone, if_true, Function.update_idem,
    show (-1 : Int) < 0 from by decide]
  refine ⟨_, rfl, ?_, ?_⟩
  · intro j
    by_cases hj : j = i
    · subst hj
      rw [Function.update_self]
      refine ⟨hmask, ?_, ?_, p.pollfds_.length, ?_, ?_⟩
      · simp only [Function.update_self]
      · simp only [OrdMap.find_insert, if_true]
      · simp only [Function.update_self]
      · simp only [List.getElem?_concat_length, slot, if_neg hm]
    · rw [Function.update_of_ne hj]
      apply h.holds_other
      · simp only [Function.update_of_ne hj]
      · simp only [OrdMap.find_insert, if_neg (fd_ne hj)]
      · intro m' hm' k hk
        exact List.getElem?_append_left (h.index_lt hm' hk)
  · intro k pfd hk
    by_cases hlt : k < p.pollfds_.length
    · simp only [List.getElem?_append_left hlt] at hk
      obtain ⟨j, m', hj, hjk⟩ := h.owner k pfd hk
      have hne : j ≠ i := by
        rintro rfl
        rw [hi] at hj
        cases hj
      exact ⟨j, m', by rw [Function.update_of_ne hne, hj],
        by simp only [Function.update_of_ne hne, hjk]⟩
    · have hlen : k = p.pollfds_.length := by
        have := (List.getElem?_eq_some_iff.mp hk).1
        simp only [List.length_append, List.length_singleton] at this
        omega
      exact ⟨i, m, by rw [Function.update_self], by simp only [Function.update_self, hlen]⟩

/-- A channel with events gets others, or none. -/
theorem modify (h : PollRep fd p phase) {i : ι} {m m' : BitVec 32} (hi : phase i = .known m)
    (hm : m ≠ 0) (hmask : Mask m') :
    ∃ p', (p.setChannel i { p.channel i with events_ := m' }).updateChannel fd i = some p' ∧
      PollRep fd p' (Function.update phase i (.known m')) := by
  obtain ⟨-, -, hfind, k, hk, hslot⟩ := h.holds_of hi
  have hpos : ¬ (k : Int) < 0 := by omega
  have hfd : (slot (fd i) m).fd = fd i := by simp only [slot, if_neg hm]
  unfold PollPoller.updateChannel PollPoller.modifyChannel PollPoller.setChannel
  simp only [Function.update_self, hk, hpos, if_false, hfind, if_true, Int.toNat_natCast, hslot,
    Option.bind_some, hfd, true_or]
  refine ⟨_, rfl, ?_, ?_⟩
  · intro j
    by_cases hj : j = i
    · subst hj
      rw [Function.update_self]
      refine ⟨hmask, ?_, hfind, k, ?_, ?_⟩
      · simp only [Function.update_self]
      · simp only [Function.update_self]
      · simp only [List.getElem?_set_self (h.index_lt hi hk)]
        by_cases hz : m' = 0
        · simp only [slot, if_pos hz, Channel.isNoneEvent, kNoneEvent, beq_iff_eq]
        · simp only [slot, if_neg hz, Channel.isNoneEvent, kNoneEvent, beq_iff_eq]
    · rw [Function.update_of_ne hj]
      apply h.holds_other
      · simp only [Function.update_of_ne hj]
      · rfl
      · intro m'' hm'' k' hk'
        apply List.getElem?_set_ne
        rintro rfl
        exact hj (h.index_inj hm'' hi (by rw [hk', hk]))
  · intro k' pfd hk'
    have hlt : k' < p.pollfds_.length := by
      have := (List.getElem?_eq_some_iff.mp hk').1
      simpa using this
    obtain ⟨j, m'', hj, hjk⟩ := h.owner k' _ (List.getElem?_eq_getElem hlt)
    by_cases hji : j = i
    · subst hji
      exact ⟨j, m', by rw [Function.update_self], by simp only [Function.update_self, ← hjk, hk]⟩
    · exact ⟨j, m'', by rw [Function.update_of_ne hji, hj],
        by simp only [Function.update_of_ne hji, hjk]⟩

/-- The slot is the last one. -/
theorem remove_last (h : PollRep fd p phase) {i : ι} (hi : phase i = .known 0) {k : Nat}
    (hk : (p.channel i).index_ = k) (hlast : k = p.pollfds_.length - 1) :
    PollRep fd { p with channels_ := p.channels_.erase (fd i), pollfds_ := p.pollfds_.dropLast }
      (Function.update phase i .gone) := by
  constructor
  · intro j
    by_cases hj : j = i
    · subst hj
      obtain ⟨-, he, -, -⟩ := h.holds_of hi
      rw [Function.update_self]
      refine ⟨he, ?_, ?_⟩
      · simp only [hk]
        omega
      · simp only [OrdMap.find_erase, if_true]
    · rw [Function.update_of_ne hj]
      apply h.holds_other
      · rfl
      · simp only [OrdMap.find_erase, if_neg (fd_ne hj)]
      · intro m hm k' hk'
        have hlt := h.index_lt hm hk'
        have hne : k' ≠ k := by
          rintro rfl
          exact hj (h.index_inj hm hi (by rw [hk', hk]))
        rw [List.getElem?_dropLast, if_pos (by omega)]
  · intro k' pfd hk'
    simp only [List.getElem?_dropLast] at hk'
    split at hk'
    · rename_i hlt
      obtain ⟨j, m, hj, hjk⟩ := h.owner k' pfd hk'
      have hne : j ≠ i := by
        rintro rfl
        omega
      exact ⟨j, m, by rw [Function.update_of_ne hne, hj], hjk⟩
    · cases hk'

/-- The last slot, of channel `l`, takes the place of the slot. -/
theorem remove_inner (h : PollRep fd p phase) {i l : ι} {m : BitVec 32} (hi : phase i = .known 0)
    (hl : phase l = .known m) {k : Nat} (hk : (p.channel i).index_ = k)
    (hlk : (p.channel l).index_ = (p.pollfds_.length - 1 : Nat)) (hlt : k < p.pollfds_.length - 1) :
    PollRep fd
      { channel := Function.update p.channel l { p.channel l with index_ := k }
        channels_ := p.channels_.erase (fd i)
        pollfds_ := (p.pollfds_.set k (slot (fd l) m)).dropLast }
      (Function.update phase i .gone) := by
  have hli : l ≠ i := by
    rintro rfl
    omega
  obtain ⟨hmask, he, hfind, -⟩ := h.holds_of hl
  constructor
  · intro j
    by_cases hj : j = i
    · subst hj
      obtain ⟨-, he, -, -⟩ := h.holds_of hi
      rw [Function.update_self]
      refine ⟨?_, ?_, ?_⟩
      · simp only [Function.update_of_ne hli.symm, he]
      · simp only [Function.update_of_ne hli.symm, hk]
        omega
      · simp only [OrdMap.find_erase, if_true]
    · rw [Function.update_of_ne hj]
      by_cases hjl : j = l
      · subst hjl
        rw [hl]
        refine ⟨hmask, ?_, ?_, k, ?_, ?_⟩
        · simp only [Function.update_self, he]
        · simp only [OrdMap.find_erase, if_neg (fd_ne hj), hfind]
        · simp only [Function.update_self]
        · simp only [List.getElem?_dropLast, List.length_set, if_pos hlt]
          exact List.getElem?_set_self (by omega)
      · apply h.holds_other
        · simp only [Function.update_of_ne hjl]
        · simp only [OrdMap.find_erase, if_neg (fd_ne hj)]
        · intro m' hm' k' hk'
          have hlt' := h.index_lt hm' hk'
          have hne : k' ≠ k := by
            rintro rfl
            exact hj (h.index_inj hm' hi (by rw [hk', hk]))
          have hne' : k' ≠ p.pollfds_.length - 1 := by
            rintro rfl
            exact hjl (h.index_inj hm' hl (by rw [hk', hlk]))
          simp only [List.getElem?_dropLast, List.length_set]
          rw [if_pos (by omega), List.getElem?_set_ne hne.symm]
  · intro k' pfd hk'
    simp only [List.getElem?_dropLast, List.length_set] at hk'
    split at hk'
    · rename_i hlt'
      by_cases hkk : k' = k
      · subst hkk
        exact ⟨l, m, by rw [Function.update_of_ne hli, hl], by simp only [Function.update_self]⟩
      · rw [List.getElem?_set_ne (Ne.symm hkk)] at hk'
        obtain ⟨j, m', hj, hjk⟩ := h.owner k' pfd hk'
        have hji : j ≠ i := by
          rintro rfl
          omega
        have hjl : j ≠ l := by
          rintro rfl
          omega
        exact ⟨j, m', by rw [Function.update_of_ne hji, hj],
          by simp only [Function.update_of_ne hjl, hjk]⟩
    · cases hk'

theorem remove (h : PollRep fd p phase) {i : ι} (hi : phase i = .known 0) :
    ∃ p', p.removeChannel fd i = some p' ∧ PollRep fd p' (Function.update phase i .gone) := by
  obtain ⟨-, he, hfind, k, hk, hslot⟩ := h.holds_of hi
  have hlt := h.index_lt hi hk
  have hnone : (p.channel i).isNoneEvent = true := by
    rw [Channel.isNoneEvent, he]
    rfl
  have hfd : (slot (fd i) 0).fd = -fd i - 1 ∧
      (slot (fd i) 0).events.signExtend 32 = (p.channel i).events_ := by
    rw [he]
    exact ⟨rfl, Mask.signExtend (.inl rfl)⟩
  have hpos : 0 ≤ (k : Int) := by omega
  unfold PollPoller.removeChannel
  simp only [hfind, hnone, hk, hpos, Int.toNat_natCast, hslot, Option.bind_some, and_self, if_true]
  rw [if_pos hfd]
  unfold PollPoller.removeSlot
  by_cases hlast : k = p.pollfds_.length - 1
  · exact ⟨_, if_pos hlast, h.remove_last hi hk hlast⟩
  · have hend : p.pollfds_.length - 1 < p.pollfds_.length := by omega
    obtain ⟨l, m, hl, hlk⟩ := h.owner _ _ (List.getElem?_eq_getElem hend)
    obtain ⟨-, -, hlfind, k', hk', hlslot⟩ := h.holds_of hl
    obtain rfl : k' = p.pollfds_.length - 1 := by omega
    have hli : l ≠ i := by
      rintro rfl
      omega
    have hdesc := descriptor_slot (fd l) m
    unfold PollFd.descriptor at hdesc
    refine ⟨_, ?_, h.remove_inner hi hl hk hlk (by omega)⟩
    simp only [if_neg hlast, List.getLast?_eq_getElem?, hlslot, Option.bind_some, hdesc,
      OrdMap.find_erase, if_neg (fd_ne hli), hlfind, Option.map_some]

end PollRep

/-! ## EPollPoller -/

namespace EPollRep

variable {e : EPollPoller ι}

theorem holds_of (h : EPollRep fd e phase) {i : ι} {x : Phase} (hi : phase i = x) :
    e.Holds fd i x := by
  rw [← hi]
  exact h.holds i

/-- Only what is held for `i` changes. -/
theorem of_channel {e' : EPollPoller ι} {phase' : Phase} (h : EPollRep fd e phase) {i : ι}
    [DecidableEq ι] (hi : e'.Holds fd i phase') (hc : ∀ j ≠ i, e'.channel j = e.channel j)
    (hf : ∀ f : Int, f ≠ fd i → e'.channels_.find f = e.channels_.find f)
    (he : ∀ f : Int, f ≠ fd i → e'.epoll.find f = e.epoll.find f) :
    EPollRep fd e' (Function.update phase i phase') := by
  constructor
  · intro j
    by_cases hj : j = i
    · subst hj
      rwa [Function.update_self]
    · have hne : (fd j : Int) ≠ fd i := PollRep.fd_ne hj
      rw [Function.update_of_ne hj]
      cases hp : phase j with
      | fresh =>
        have hh := h.holds_of hp
        exact ⟨by rw [hc j hj, hh.1], by rw [hf _ hne, hh.2.1], by rw [he _ hne, hh.2.2]⟩
      | known m =>
        have hh := h.holds_of hp
        exact ⟨by rw [hc j hj, hh.1], by rw [hf _ hne, hh.2.1], by rw [he _ hne, hh.2.2]⟩
      | gone =>
        have hh := h.holds_of hp
        exact ⟨by rw [hc j hj, hh.1], by rw [hf _ hne, hh.2.1], by rw [he _ hne, hh.2.2]⟩
  · intro f x hx
    by_cases hfi : f = fd i
    · exact ⟨i, hfi⟩
    · rw [he f hfi] at hx
      exact h.listed f x hx

variable [DecidableEq ι]

theorem add (h : EPollRep fd e phase) {i : ι} (hi : phase i = .fresh) {m : BitVec 32}
    (hm : m ≠ 0) :
    ∃ e', (e.setChannel i { e.channel i with events_ := m }).updateChannel fd i = some e' ∧
      EPollRep fd e' (Function.update phase i (.known m)) := by
  obtain ⟨hnew, hnone, hlist⟩ := h.holds_of hi
  unfold EPollPoller.updateChannel EPollPoller.addChannel EPollPoller.update
    EPollPoller.setChannel
  simp only [Function.update_self, hnew, Channel.new, hnone, hlist, kNew, true_or, if_true,
    Function.update_idem]
  refine ⟨_, rfl, h.of_channel ⟨?_, ?_, ?_⟩ ?_ ?_ ?_⟩
  · simp only [Function.update_self, if_neg hm]
  · simp only [OrdMap.find_insert, if_true]
  · simp only [OrdMap.find_insert, if_true, if_neg hm]
  · intro j hj
    simp only [Function.update_of_ne hj]
  · intro f hf
    simp only [OrdMap.find_insert, if_neg hf]
  · intro f hf
    simp only [OrdMap.find_insert, if_neg hf]

theorem modify (h : EPollRep fd e phase) {i : ι} {m : BitVec 32} (hi : phase i = .known m)
    (hm : m ≠ 0) (m' : BitVec 32) :
    ∃ e', (e.setChannel i { e.channel i with events_ := m' }).updateChannel fd i = some e' ∧
      EPollRep fd e' (Function.update phase i (.known m')) := by
  obtain ⟨hc, hfind, hlist⟩ := h.holds_of hi
  rw [if_neg hm] at hc hlist
  unfold EPollPoller.updateChannel EPollPoller.modifyChannel EPollPoller.setChannel
  simp only [Function.update_self, hc, hfind, show ¬ (kAdded = kNew ∨ kAdded = kDeleted) by decide,
    if_false, and_self, if_true, Channel.isNoneEvent, kNoneEvent, beq_iff_eq]
  by_cases hm' : m' = 0
  · simp only [if_pos hm', EPollPoller.update, Option.map_some, Function.update_self,
      Function.update_idem]
    refine ⟨_, rfl, h.of_channel ⟨?_, hfind, ?_⟩ ?_ (fun f _ => rfl) ?_⟩
    · simp only [Function.update_self, if_pos hm']
    · simp only [OrdMap.find_erase, if_true, if_pos hm']
    · intro j hj
      simp only [Function.update_of_ne hj]
    · intro f hf
      simp only [OrdMap.find_erase, if_neg hf]
  · simp only [if_neg hm', EPollPoller.update, hlist, Function.update_self]
    refine ⟨_, rfl, h.of_channel ⟨?_, hfind, ?_⟩ ?_ (fun f _ => rfl) ?_⟩
    · simp only [Function.update_self, if_neg hm']
    · simp only [OrdMap.find_insert, if_true, if_neg hm']
    · intro j hj
      simp only [Function.update_of_ne hj]
    · intro f hf
      simp only [OrdMap.find_insert, if_neg hf]

theorem remove (h : EPollRep fd e phase) {i : ι} (hi : phase i = .known 0) :
    ∃ e', e.removeChannel fd i = some e' ∧ EPollRep fd e' (Function.update phase i .gone) := by
  obtain ⟨hc, hfind, hlist⟩ := h.holds_of hi
  rw [if_pos rfl] at hc hlist
  have hnone : (⟨0, kDeleted⟩ : Channel).isNoneEvent = true := rfl
  unfold EPollPoller.removeChannel EPollPoller.setChannel
  simp only [hfind, hc, hnone, show kDeleted ≠ kAdded by decide, or_true, and_self, if_true,
    if_false, Option.map_some]
  refine ⟨_, rfl, h.of_channel ⟨?_, ?_, hlist⟩ ?_ ?_ (fun f _ => rfl)⟩
  · simp only [Function.update_self]
  · simp only [OrdMap.find_erase, if_true]
  · intro j hj
    simp only [Function.update_of_ne hj]
  · intro f hf
    simp only [OrdMap.find_erase, if_neg hf]

end EPollRep

/-! ## What the pollers watch -/

/-- A channel has events exactly if it is known with events. -/
theorem PollRep.events_ne (h : PollRep fd p phase) {i : ι} (hi : (p.channel i).events_ ≠ 0) :
    phase i = .known (p.channel i).events_ := by
  cases hp : phase i with
  | fresh =>
    rw [(h.holds_of hp).1] at hi
    exact absurd rfl hi
  | known m => rw [(h.holds_of hp).2.1]
  | gone => exact absurd (h.holds_of hp).1 hi

/-- A slot is that of a known channel. -/
theorem PollRep.slot_owner (h : PollRep fd p phase) {k : Nat} {pfd : PollFd}
    (hk : p.pollfds_[k]? = some pfd) :
    ∃ i m, phase i = .known m ∧ (p.channel i).index_ = k ∧ pfd = slot (fd i) m := by
  obtain ⟨i, m, hi, hik⟩ := h.owner k pfd hk
  obtain ⟨-, -, -, k', hk', hslot⟩ := h.holds_of hi
  obtain rfl : k' = k := by omega
  exact ⟨i, m, hi, hik, Option.some.inj (hk.symm.trans hslot)⟩

theorem PollRep.watched_eq (h : PollRep fd p phase) : p.watched = wanted fd p.channel := by
  ext x
  constructor
  · rintro ⟨pfd, hmem, hpos, rfl⟩
    obtain ⟨k, hk⟩ := List.mem_iff_getElem?.mp hmem
    obtain ⟨i, m, hi, -, rfl⟩ := h.slot_owner hk
    obtain ⟨hmask, he, -, -⟩ := h.holds_of hi
    have hm : m ≠ 0 := by
      intro hm
      simp only [slot, if_pos hm] at hpos
      omega
    refine ⟨i, by rwa [he], ?_⟩
    simp only [slot, if_neg hm, he, hmask.signExtend]
  · rintro ⟨i, hne, rfl⟩
    have hm : (p.channel i).events_ ≠ 0 := hne
    obtain ⟨hmask, -, -, k, -, hslot⟩ := h.holds_of (h.events_ne hm)
    refine ⟨_, List.mem_iff_getElem?.mpr ⟨k, hslot⟩, ?_, ?_⟩
    · simp only [slot, if_neg hm]
      omega
    · simp only [slot, if_neg hm, hmask.signExtend]

theorem EPollRep.watched_eq {e : EPollPoller ι} (h : EPollRep fd e phase)
    (hp : PollRep fd p phase) : e.watched = wanted fd p.channel := by
  ext ⟨f, m⟩
  constructor
  · rintro ⟨i, hi⟩
    obtain ⟨j, rfl⟩ := h.listed f _ hi
    cases hj : phase j with
    | fresh =>
      rw [(h.holds_of hj).2.2] at hi
      cases hi
    | known m' =>
      obtain ⟨-, he, -, -⟩ := hp.holds_of hj
      rw [(h.holds_of hj).2.2] at hi
      split at hi
      · cases hi
      · rename_i hm
        obtain ⟨rfl, -⟩ := Prod.mk.inj (Option.some.inj hi)
        exact ⟨j, by rwa [he], by rw [he]⟩
    | gone =>
      rw [(h.holds_of hj).2.2] at hi
      cases hi
  · rintro ⟨i, hne, hx⟩
    obtain ⟨rfl, rfl⟩ := Prod.mk.inj hx
    obtain ⟨-, -, hlist⟩ := h.holds_of (hp.events_ne hne)
    exact ⟨i, hlist.trans (if_neg hne)⟩

/-- **While each poller holds its channels, both watch the channels with events.** -/
theorem sameWatch_of_reps {e : EPollPoller ι} (hp : PollRep fd p phase) (he : EPollRep fd e phase) :
    Pollers.SameWatch fd ⟨some p, some e⟩ := by
  refine ⟨p, e, rfl, rfl, hp.watched_eq, he.watched_eq hp, ?_⟩
  intro i hi
  cases hph : phase i with
  | fresh =>
    rw [(hp.holds_of hph).2] at hi
    cases hi
  | known m =>
    obtain ⟨-, -, -, k, hk, hslot⟩ := hp.holds_of hph
    refine ⟨k, hk, _, hslot, ?_⟩
    unfold slot
    by_cases hm : m = 0
    · exact .inr (if_pos hm)
    · exact .inl (if_neg hm)
  | gone =>
    rw [(hp.holds_of hph).2.2] at hi
    cases hi

/-! ## The calls -/

variable {e : EPollPoller ι}

/-- A call keeps the pollers together exactly if it does in the phase of its channel. -/
theorem PollRep.keepsWatch_iff (h : PollRep fd p phase) (i : ι) (op : ChannelOp) :
    Pollers.KeepsWatch fd ⟨some p, some e⟩ (i, op) ↔ (phase i).Keeps op := by
  have hsome : Pollers.KeepsWatch fd ⟨some p, some e⟩ (i, op) ↔
      (op = .remove ∧ p.channels_.find (fd i) = some i ∨ op ≠ .remove ∧
        ((p.channel i).events_ ≠ 0 ∨ op.mask (p.channel i).events_ ≠ 0 ∧
          (p.channel i).index_ < 0)) := by
    unfold Pollers.KeepsWatch
    cases op <;> simp [kNoneEvent]
  rw [hsome]
  cases hi : phase i with
  | fresh =>
    obtain ⟨hnew, hnone⟩ := h.holds_of hi
    simp [Phase.Keeps, hnew, hnone, Channel.new]
  | known m =>
    obtain ⟨-, he, hfind, k, hk, -⟩ := h.holds_of hi
    by_cases hop : op = .remove
    · simp [Phase.Keeps, hop, hfind]
    · have hpos : ¬ (k : Int) < 0 := by omega
      simp [Phase.Keeps, hop, he, hk, hpos]
  | gone =>
    obtain ⟨he, hidx, hnone⟩ := h.holds_of hi
    have hpos : ¬ (p.channel i).index_ < 0 := by omega
    simp [Phase.Keeps, hnone, he, hpos]

/-- The state of the pollers while they watch the same. -/
def Pollers.Tracks (fd : ι ↪ Nat) (s : Pollers ι) : Prop :=
  ∃ p e phase, s = ⟨some p, some e⟩ ∧ PollRep fd p phase ∧ EPollRep fd e phase

theorem Pollers.tracks_start : Tracks fd start := by
  refine ⟨.new, .new, fun _ => .fresh, rfl, ⟨fun i => ⟨rfl, rfl⟩, ?_⟩,
    ⟨fun i => ⟨rfl, rfl, rfl⟩, ?_⟩⟩
  · intro k pfd hk
    simp [PollPoller.new] at hk
  · intro f x hx
    simp [EPollPoller.new, OrdMap.find_empty] at hx

theorem events_eq (hp : PollRep fd p phase) (he : EPollRep fd e phase) (i : ι) :
    (e.channel i).events_ = (p.channel i).events_ := by
  cases hi : phase i with
  | fresh => rw [(hp.holds_of hi).1, (he.holds_of hi).1]
  | known m => rw [(he.holds_of hi).1, (hp.holds_of hi).2.1]
  | gone => rw [(hp.holds_of hi).1, (he.holds_of hi).1]

/-- A channel without events is not wanted. -/
theorem not_wanted_zero (channel : ι → Channel) (f : Int) : (f, 0) ∉ wanted fd channel := by
  rintro ⟨i, hne, hx⟩
  exact hne (Prod.mk.inj hx).2.symm

theorem Pollers.not_sameWatch_of_none {s : Pollers ι} (h : s.poll = none) : ¬ SameWatch fd s := by
  rintro ⟨p, e, hp, -⟩
  rw [h] at hp
  cases hp

variable [DecidableEq ι]

theorem PollPoller.apply_of_ne {op : ChannelOp} (h : op ≠ .remove) (p : PollPoller ι) (i : ι) :
    p.apply fd i op = (p.setChannel i
      { p.channel i with events_ := op.mask (p.channel i).events_ }).updateChannel fd i := by
  cases op with
  | remove => exact absurd rfl h
  | _ => rfl

theorem EPollPoller.apply_of_ne {op : ChannelOp} (h : op ≠ .remove) (e : EPollPoller ι) (i : ι) :
    e.apply fd i op = (e.setChannel i
      { e.channel i with events_ := op.mask (e.channel i).events_ }).updateChannel fd i := by
  cases op with
  | remove => exact absurd rfl h
  | _ => rfl

theorem Pollers.step_eq_some {a : ι × ChannelOp} {s' : Pollers ι}
    (h : step fd ⟨some p, some e⟩ a = some s') :
    (a.2 = .remove → (p.channel a.1).isNoneEvent = true) ∧
      s' = ⟨p.apply fd a.1 a.2, e.apply fd a.1 a.2⟩ := by
  simp only [step] at h
  split at h
  · rename_i hnone
    exact ⟨hnone, (Option.some.inj h).symm⟩
  · cases h

theorem Pollers.Tracks.keep {s s' : Pollers ι} {a : ι × ChannelOp} (hs : Tracks fd s)
    (ha : KeepsWatch fd s a) (h : step fd s a = some s') : Tracks fd s' := by
  obtain ⟨p, e, phase, rfl, hp, he⟩ := hs
  obtain ⟨i, op⟩ := a
  obtain ⟨hnone, rfl⟩ := step_eq_some h
  rw [hp.keepsWatch_iff] at ha
  by_cases hop : op = .remove
  · subst hop
    cases hi : phase i with
    | fresh =>
      rw [hi] at ha
      exact absurd rfl ha.1
    | known m =>
      obtain ⟨-, hev, -, -⟩ := hp.holds_of hi
      obtain rfl : m = 0 := by
        rw [← hev]
        simpa [Channel.isNoneEvent, kNoneEvent] using hnone rfl
      obtain ⟨p', hp', hrep⟩ := hp.remove hi
      obtain ⟨e', he', herep⟩ := he.remove hi
      exact ⟨p', e', _, by simp only [PollPoller.apply, EPollPoller.apply, hp', he'], hrep, herep⟩
    | gone =>
      rw [hi] at ha
      exact ha.elim
  · simp only [PollPoller.apply_of_ne hop, EPollPoller.apply_of_ne hop, events_eq hp he]
    cases hi : phase i with
    | fresh =>
      rw [hi] at ha
      have hph := hp.holds_of hi
      have hm : op.mask (p.channel i).events_ ≠ 0 := by
        rw [hph.1]
        exact ha.2
      have hmask : Mask (op.mask (p.channel i).events_) := by
        rw [hph.1]
        exact Mask.next (.inl rfl) op
      obtain ⟨p', hp', hrep⟩ := hp.add hi hm hmask
      obtain ⟨e', he', herep⟩ := he.add hi hm
      exact ⟨p', e', _, by simp only [hp', he'], hrep, herep⟩
    | known m =>
      rw [hi] at ha
      obtain ⟨hmask, hev, -, -⟩ := hp.holds_of hi
      have hm : m ≠ 0 := ha.resolve_left hop
      have hmask' : Mask (op.mask (p.channel i).events_) := by
        rw [hev]
        exact hmask.next op
      obtain ⟨p', hp', hrep⟩ := hp.modify hi hm hmask'
      obtain ⟨e', he', herep⟩ := he.modify hi hm (op.mask (p.channel i).events_)
      exact ⟨p', e', _, by simp only [hp', he'], hrep, herep⟩
    | gone =>
      rw [hi] at ha
      exact ha.elim

/-! ## The calls after which the pollers watch different things -/

/-- A channel that was never added is added without events. -/
theorem PollRep.add_none (h : PollRep fd p phase) {i : ι} (hi : phase i = .fresh)
    {p' : PollPoller ι}
    (hp' : (p.setChannel i { p.channel i with events_ := 0 }).updateChannel fd i = some p') :
    ((fd i : Int), 0) ∈ p'.watched := by
  obtain ⟨hnew, hnone⟩ := h.holds_of hi
  unfold PollPoller.updateChannel PollPoller.addChannel PollPoller.setChannel at hp'
  simp only [Function.update_self, hnew, Channel.new, hnone, if_true,
    show (-1 : Int) < 0 from by decide] at hp'
  rw [← Option.some.inj hp']
  refine ⟨⟨fd i, 0⟩, ?_, ?_, rfl⟩
  · exact List.mem_append_right _ (List.mem_singleton.mpr rfl)
  · exact Int.natCast_nonneg _

/-- A channel without events is added to the list of the kernel again. -/
theorem EPollRep.add_none (h : EPollRep fd e phase) {i : ι} (hi : phase i = .known 0)
    {e' : EPollPoller ι}
    (he' : (e.setChannel i { e.channel i with events_ := 0 }).updateChannel fd i = some e') :
    ((fd i : Int), 0) ∈ e'.watched := by
  obtain ⟨hc, hfind, hlist⟩ := h.holds_of hi
  rw [if_pos rfl] at hc hlist
  unfold EPollPoller.updateChannel EPollPoller.addChannel EPollPoller.update
    EPollPoller.setChannel at he'
  simp only [Function.update_self, hc, hfind, hlist, or_true, if_true, Function.update_idem,
    show kDeleted ≠ kNew by decide, if_false] at he'
  rw [← Option.some.inj he']
  exact ⟨i, by simp only [OrdMap.find_insert, if_true]⟩

/-- The descriptor of the slot stays negative when events are enabled. -/
theorem PollRep.modify_ignored (h : PollRep fd p phase) {i : ι} (hi : phase i = .known 0)
    {m : BitVec 32} {p' : PollPoller ι}
    (hp' : (p.setChannel i { p.channel i with events_ := m }).updateChannel fd i = some p') :
    (p'.channel i).events_ = m ∧ ((fd i : Int), m) ∉ p'.watched := by
  obtain ⟨-, -, hfind, k, hk, hslot⟩ := h.holds_of hi
  have hpos : ¬ (k : Int) < 0 := by omega
  have hfd : (slot (fd i) 0).fd = -fd i - 1 := rfl
  unfold PollPoller.updateChannel PollPoller.modifyChannel PollPoller.setChannel at hp'
  simp only [Function.update_self, hk, hpos, if_false, hfind, if_true, Int.toNat_natCast, hslot,
    Option.bind_some, hfd, or_true, ite_self] at hp'
  rw [← Option.some.inj hp']
  refine ⟨by simp only [Function.update_self], ?_⟩
  rintro ⟨pfd, hmem, hnn, hx⟩
  obtain ⟨hfdi, -⟩ := Prod.mk.inj hx
  obtain ⟨k', hk'⟩ := List.mem_iff_getElem?.mp hmem
  by_cases hkk : k' = k
  · subst hkk
    simp only [List.getElem?_set_self (h.index_lt hi hk)] at hk'
    rw [← Option.some.inj hk'] at hnn
    simp only at hnn
    omega
  · simp only [List.getElem?_set_ne (Ne.symm hkk)] at hk'
    obtain ⟨j, m', hj, hjk, rfl⟩ := h.slot_owner hk'
    have hdesc := descriptor_slot (fd j) m'
    rw [PollFd.descriptor, if_neg (by omega), ← hfdi] at hdesc
    obtain rfl : i = j := fd.injective (by omega)
    omega

/-- A channel that `PollPoller` does not know, and that has an index, cannot be updated. -/
theorem PollPoller.update_gone {i : ι} {m : BitVec 32} (hidx : 0 ≤ (p.channel i).index_)
    (hnone : p.channels_.find (fd i) = none) :
    (p.setChannel i { p.channel i with events_ := m }).updateChannel fd i = none := by
  have hpos : ¬ (p.channel i).index_ < 0 := by omega
  unfold updateChannel modifyChannel setChannel
  simp only [Function.update_self, hpos, if_false, hnone, reduceCtorEq]

theorem PollPoller.remove_unknown {i : ι} (hnone : p.channels_.find (fd i) = none) :
    p.removeChannel fd i = none := by
  unfold removeChannel
  simp only [hnone, reduceCtorEq, false_and, if_false]

theorem Pollers.Tracks.breaks {s s' : Pollers ι} {a : ι × ChannelOp} (hs : Tracks fd s)
    (ha : ¬ KeepsWatch fd s a) (h : step fd s a = some s') : ¬ SameWatch fd s' := by
  obtain ⟨p, e, phase, rfl, hp, he⟩ := hs
  obtain ⟨i, op⟩ := a
  obtain ⟨-, rfl⟩ := step_eq_some h
  rw [hp.keepsWatch_iff] at ha
  by_cases hop : op = .remove
  · subst hop
    apply not_sameWatch_of_none
    cases hi : phase i with
    | fresh => exact PollPoller.remove_unknown (hp.holds_of hi).2
    | known m =>
      rw [hi] at ha
      exact absurd (.inl rfl) ha
    | gone => exact PollPoller.remove_unknown (hp.holds_of hi).2.2
  · simp only [PollPoller.apply_of_ne hop, EPollPoller.apply_of_ne hop, events_eq hp he]
    cases hi : phase i with
    | fresh =>
      rw [hi] at ha
      have hm : op.mask (p.channel i).events_ = 0 := by
        rw [(hp.holds_of hi).1]
        exact Classical.byContradiction fun hm => ha ⟨hop, hm⟩
      rintro ⟨p', e', hp', -, hw, -⟩
      rw [hm] at hp'
      have hmem := hp.add_none hi hp'
      rw [hw] at hmem
      exact not_wanted_zero _ _ hmem
    | known m =>
      rw [hi] at ha
      obtain rfl : m = 0 := Classical.byContradiction fun hm => ha (.inr hm)
      rintro ⟨p', e', hp', he', hw, hw', -⟩
      by_cases hm : op.mask (p.channel i).events_ = 0
      · rw [hm] at he'
        have hmem := he.add_none hi he'
        rw [hw'] at hmem
        exact not_wanted_zero _ _ hmem
      · obtain ⟨hev, hnot⟩ := hp.modify_ignored hi hp'
        apply hnot
        rw [hw]
        exact ⟨i, by rwa [hev], by rw [hev]⟩
    | gone =>
      obtain ⟨-, hidx, hnone⟩ := hp.holds_of hi
      exact not_sameWatch_of_none (PollPoller.update_gone hidx hnone)

/-- **In every run of calls, both pollers watch the channels with events, and nothing else, exactly
    if events are enabled only for a channel that has some or was never added, are disabled only for
    a channel that has some, and only channels that are known are removed.** -/
theorem pollers_watch_same_iff (fd : ι ↪ Nat) (ops : List (ι × ChannelOp)) :
    (∀ n s, run (Pollers.step fd) .start (ops.take n) = some s → s.SameWatch fd) ↔
      ∀ n a s s', ops[n]? = some a → run (Pollers.step fd) .start (ops.take n) = some s →
        s.step fd a = some s' → s.KeepsWatch fd a := by
  apply forall_states_iff_of_invariant (J := Pollers.Tracks fd) Pollers.tracks_start
  · rintro s ⟨p, e, phase, rfl, hp, he⟩
    exact sameWatch_of_reps hp he
  · intro s a s' hs ha h
    exact hs.keep ha h
  · intro s a s' hs ha h
    exact hs.breaks ha h

end

/-- Descriptor 5 is read, then disabled, then read again: `poll` still ignores it. -/
theorem reenabled_channel_ignored :
    ¬ ∀ (fd : Unit ↪ Nat) (ops : List (Unit × ChannelOp)) n s,
      run (Pollers.step fd) .start (ops.take n) = some s → s.SameWatch fd := by
  intro h
  obtain ⟨p, e, hp, -, hw, -, -⟩ := h ⟨fun _ => 5, fun _ _ _ => rfl⟩
    [((), .enableReading), ((), .disableAll), ((), .enableReading)] 3 _ rfl
  have hpoll := Option.some.inj hp
  have hfds : p.pollfds_ = [⟨-6, 3⟩] := by rw [← hpoll]; rfl
  have hev : (p.channel ()).events_ = 3 := by rw [← hpoll]; rfl
  have hmem : ((5 : Int), (3 : BitVec 32)) ∈ p.watched := by
    rw [hw]
    exact ⟨(), by rw [hev]; decide, by rw [hev]; rfl⟩
  obtain ⟨pfd, hpfd, hpos, -⟩ := hmem
  rw [hfds, List.mem_singleton] at hpfd
  rw [hpfd] at hpos
  exact absurd hpos (by decide)

end Mmvx.Net.Poller
