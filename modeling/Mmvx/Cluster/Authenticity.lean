/-
  A SUCCESS reply can be trusted.

  In every run, whatever connects, goes down or starts again, a client is sent SUCCESS only for a
  `Logon` of its own that was accepted, with an address and a session that a forward server has
  added for it, and at most once for each of these (`logon_authentic`). The only assumption is that
  the names of the clients' connections differ, since a name is all that an answer is addressed by.
-/
import Mmvx.Cluster.Pending

namespace Mmvx.Cluster

open Mmvx.Lib Mmvx.Server

variable {nk nf : Nat}

/-- The names of the clients' connections to the logon server are distinct. -/
def NamesUnique (l : Links (Info nk nf) (Tagged Message)) : Prop :=
  l.Pairwise fun e e' => e.info.role = .logonServer → e'.info.role = .logonServer →
    e.info.name ≠ e'.info.name

instance (l : Links (Info nk nf) (Tagged Message)) : Decidable (NamesUnique l) :=
  inferInstanceAs (Decidable (l.Pairwise _))

theorem NamesUnique.eq {l : Links (Info nk nf) (Tagged Message)} (h : NamesUnique l) {p q : Nat}
    {n : String} (hp : Named l p n) (hq : Named l q n) : p = q := by
  obtain ⟨i, p', hpl, hpr, hpn⟩ := hp
  obtain ⟨i', q', hql, hqr, hqn⟩ := hq
  obtain ⟨e, he, rfl, -⟩ := Links.getElem?_of_label hpl
  obtain ⟨e', he', rfl, -⟩ := Links.getElem?_of_label hql
  obtain ⟨hplt, rfl⟩ := List.getElem?_eq_some_iff.mp he
  obtain ⟨hqlt, rfl⟩ := List.getElem?_eq_some_iff.mp he'
  have hpair := List.pairwise_iff_getElem.mp h
  rcases Nat.lt_trichotomy p q with hlt | heq | hlt
  · exact absurd (hpn.trans hqn.symm) (hpair p q hplt hqlt hlt hpr hqr)
  · exact heq
  · exact absurd (hqn.trans hpn.symm) (hpair q p hqlt hplt hlt hqr hpr)

def isSuccess : Message → Bool
  | .logonRet m => m.status = .SUCCESS
  | _ => false

/-- A SUCCESS reply on the connection `c`. -/
def isSuccessOn (c : Nat) : Event → Bool
  | .sent c' m => c' = c && isSuccess m.val
  | _ => false

def successes (log : List Event) (c : Nat) : Nat := log.countP (isSuccessOn c)

/-- A `Logon` sent on the connection `c` that `log` knows to be accepted. -/
def isAcceptedOn (log : List Event) (c : Nat) : Event → Bool
  | .request r (.logon m) =>
    r.client = c && log.contains (.call ⟨some r, .acceptLogon m.uid.toUInt64.toUInt32⟩)
  | _ => false

def acceptedLogons (log : List Event) (c : Nat) : Nat := log.countP (isAcceptedOn log c)

/-! ## Replies and accepted requests -/

/-- The request that a SUCCESS reply on `c` answers. -/
def answeredRequest (c : Nat) : Event → Option Request
  | .sent c' m => if c' = c && isSuccess m.val then m.cause else none
  | _ => none

def acceptedRequest (log : List Event) (c : Nat) : Event → Option Request
  | .request r m => if isAcceptedOn log c (.request r m) then some r else none
  | _ => none

theorem length_acceptedRequest (log : List Event) (c : Nat) :
    (log.filterMap (acceptedRequest log c)).length = acceptedLogons log c := by
  rw [List.length_filterMap_eq_countP, acceptedLogons]
  refine List.countP_congr ?_
  intro e _
  cases e with
  | request r m => simp [acceptedRequest]
  | _ => simp [acceptedRequest, isAcceptedOn]

section

variable {s : System nk nf}

theorem isSuccess_iff {m : Message} : isSuccess m = true ↔
    ∃ ret, m = .logonRet ret ∧ ret.status = .SUCCESS := by
  cases m <;> simp [isSuccess]

/-- What a SUCCESS reply rests on, when names are distinct. -/
theorem Causal.sent (h : Causal s) (hnames : NamesUnique s.links) {older : List Event} {c : Nat}
    {m : Tagged Message} {ret : LogonRet} (hm : (.sent c m :: older) <:+ s.log)
    (hret : m.val = .logonRet ret) (hst : ret.status = .SUCCESS) :
    ∃ r n o, m.cause = some r ∧ r.client = c ∧ Named s.links c n ∧ Accepted older r ret.uid ∧
      Offered older r ret.uid n o ∧ ret.forwardip = some o.1 ∧ ret.forwardport = some o.2.1 ∧
      ret.session = some o.2.2 := by
  obtain ⟨r, n, o, hr, hc, hn, rest⟩ := h.log older c m hm ret hret hst
  exact ⟨r, n, o, hr, hnames.eq hn hc, hc, rest⟩

/-- The same, wherever the reply is in the log. -/
theorem Causal.mem_sent (h : Causal s) (hnames : NamesUnique s.links) {c : Nat}
    {m : Tagged Message} (hm : .sent c m ∈ s.log) (hs : isSuccess m.val = true) :
    ∃ r u, m.cause = some r ∧ r.client = c ∧ Accepted s.log r u := by
  obtain ⟨newer, older, hlog⟩ := List.append_of_mem hm
  have hsuffix : (.sent c m :: older) <:+ s.log := ⟨newer, hlog.symm⟩
  obtain ⟨ret, hret, hst⟩ := isSuccess_iff.mp hs
  obtain ⟨r, n, o, hr, hc, -, ha, -⟩ := h.sent hnames hsuffix hret hst
  refine ⟨r, ret.uid, hr, hc, ha.mono ?_⟩
  exact fun x hx => hsuffix.subset (List.mem_cons_of_mem _ hx)

theorem length_answeredRequest (h : Causal s) (hnames : NamesUnique s.links) (c : Nat) :
    (s.log.filterMap (answeredRequest c)).length = successes s.log c := by
  rw [List.length_filterMap_eq_countP, successes]
  refine List.countP_congr ?_
  intro e he
  cases e with
  | sent c' m =>
    simp only [answeredRequest, isSuccessOn]
    split
    · rename_i hc
      rw [Bool.and_eq_true] at hc
      obtain ⟨r, -, hr, -⟩ := h.mem_sent hnames he hc.2
      simp [hr, hc.1, hc.2]
    · rename_i hc
      simp [hc]
  | _ => simp [answeredRequest, isSuccessOn]

/-- A request is answered with SUCCESS at most once. -/
theorem nodup_answeredRequest (hlin : Linear s) (c : Nat) :
    (s.log.filterMap (answeredRequest c)).Nodup := by
  rw [List.nodup_iff_count_le_one]
  intro r
  have hle : replies s r ≤ 1 := by
    have := hlin r
    rw [load] at this
    split at this <;> omega
  refine Nat.le_trans ?_ hle
  rw [List.count_filterMap, replies]
  refine List.countP_mono_left ?_
  intro e _ hr
  cases e with
  | sent c' m =>
    simp only [answeredRequest] at hr
    split at hr
    · rename_i hc
      rw [Bool.and_eq_true] at hc
      obtain ⟨ret, hret, -⟩ := isSuccess_iff.mp hc.2
      have hcause : m.cause = some r := by simpa using hr
      simp [isReply, hcause, hret, isLogonRet]
    · simp at hr
  | _ => simp [answeredRequest] at hr

theorem answeredRequest_subset (h : Causal s) (hnames : NamesUnique s.links) (c : Nat) :
    s.log.filterMap (answeredRequest c) ⊆ s.log.filterMap (acceptedRequest s.log c) := by
  intro r hr
  obtain ⟨e, he, hreq⟩ := List.mem_filterMap.mp hr
  cases e with
  | sent c' m =>
    simp only [answeredRequest] at hreq
    split at hreq
    · rename_i hc
      rw [Bool.and_eq_true, decide_eq_true_eq] at hc
      obtain ⟨r', u, hr', hc', lm, hlm, hcall, -⟩ := h.mem_sent hnames he hc.2
      obtain rfl := Option.some.inj (hr'.symm.trans hreq)
      refine List.mem_filterMap.mpr ⟨_, hlm, ?_⟩
      simp [acceptedRequest, isAcceptedOn, hc', hc.1, hcall]
    · cases hreq
  | _ => cases hreq

theorem successes_le (h : Causal s) (hlin : Linear s) (hnames : NamesUnique s.links) (c : Nat) :
    successes s.log c ≤ acceptedLogons s.log c := by
  rw [← length_answeredRequest h hnames, ← length_acceptedRequest]
  exact ((nodup_answeredRequest hlin c).subperm (answeredRequest_subset h hnames c)).length_le

end

/-- **Logon authenticity.** Whenever SUCCESS is sent on `c`, with an account, an address and a
    session: earlier `c` itself has sent a `Logon` that was accepted for the account, a forward
    server that listens at the address has added the session for the account and the name of `c`,
    and there are no more such replies on `c` than accepted `Logon`s from it. -/
theorem logon_authentic {logon : LogonServer} {keepers : Fin nk → KeeperServer}
    (h₀ : Fresh logon keepers) {s : System nk nf}
    (h : Reaches System.step (fun _ _ => True) (System.init logon keepers) s)
    (hnames : NamesUnique s.links) :
    (∀ older c cause ret, (.sent c ⟨cause, .logonRet ret⟩ :: older) <:+ s.log →
      ret.status = .SUCCESS →
      ∃ r m n session addr, r.client = c ∧ Named s.links c n ∧
        .request r (.logon m) ∈ older ∧
        .call ⟨some r, .acceptLogon m.uid.toUInt64.toUInt32⟩ ∈ older ∧
        LogonServer.uidField m.uid.toUInt64.toUInt32 = ret.uid ∧
        .call ⟨some r, .addLogonSession ret.uid session n addr⟩ ∈ older ∧
        ret.forwardip = some addr.ip ∧ ret.forwardport = some addr.port.toUInt32 ∧
        ret.session = some session.toUInt32) ∧
    ∀ c, successes s.log c ≤ acceptedLogons s.log c := by
  have hcausal := causal_reaches h₀ h
  refine ⟨?_, successes_le hcausal (linear_reaches h₀ h) hnames⟩
  intro older c cause ret hm hst
  obtain ⟨r, n, o, -, hc, hn, ⟨m, hreq, hcall, hu⟩, ⟨session, addr, hsession, rfl⟩, hip, hport, hs⟩ :=
    hcausal.sent hnames hm rfl hst
  exact ⟨r, m, n, session, addr, hc, hn, hreq, hcall, hu, hsession, hip, hport, hs⟩

/-- A client logs on to the servers of luaconfig. -/
theorem logon_authentic_lua :
    ∃ s : System 1 1, Reaches System.step (fun _ _ => True) (luaInit 1) s ∧
      successes s.log 7 = 1 ∧ 1 ≤ acceptedLogons s.log 7 := by
  obtain ⟨s, hs, hnames, hone⟩ : ∃ s : System 1 1,
      Reaches System.step (fun _ _ => True) (luaInit 1) s ∧
        NamesUnique s.links ∧ successes s.log 7 = 1 :=
    exists_reaches (luaLogonSteps luaLogonMessage) (by decide +kernel)
  have hle := (logon_authentic fresh_lua hs hnames).2 7
  rw [hone] at hle
  exact ⟨s, hs, hone, hle⟩

end Mmvx.Cluster
