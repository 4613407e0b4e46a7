import CServer.Consume.TradeRuns

/-! # The market in regular runs

Each step is about one request and at most one order. `Fair` says of every order and of every request
that waits how far it has come; `Fair.local` leaves the others out of what has to be shown of a step.
-/
namespace CServer.Consume
open CServer.Lib Option Nat
open List hiding lookup

/-! ## The invariant -/

structure Clean (log : List Event) (rid gid : ℕ) : Prop where
  untouched : Untouched rid log
  credited : creditedOn gid log = []
  charged : chargedOn gid log = []

def Phase (log : List Event) (r : Request) : Prop :=
  match r.at' with
  | .sell _ _ => Untouched r.rid log
  | .takeBack o => Clean log r.rid o.gid
  | .buyerName o _ => Clean log r.rid o.gid
  | .mail o _ => Clean log r.rid o.gid
  | .charge o =>
    Clean log r.rid o.gid ∨
      creditedBy r.rid log = true ∧ creditedOn o.gid log = [o.cost.value] ∧ chargedOn o.gid log = []
  | .deliver o => creditedOn o.gid log = [o.cost.value] ∧ chargedOn o.gid log = [o.cost.value]

def Listed (s : Market) (gid : ℕ) : Prop := ∃ o ∈ s.orders, o.gid = gid

structure Account (s : Market) (gid : ℕ) : Prop where
  once : (handedOn gid s.log).length ≤ 1
  unhanded : Listed s gid → handedOn gid s.log = []
  settled : Idle s gid → creditedOn gid s.log = chargedOn gid s.log
  unsold : Listed s gid → Idle s gid → creditedOn gid s.log = []

structure Pending (s : Market) (r : Request) : Prop where
  issued : r.rid < s.nextRid
  listed : ∀ o, r.at'.order = some o → o ∈ s.orders
  phase : Phase s.log r
  unanswered : ∀ result, Event.answered r.rid result ∉ s.log

structure Fair (s : Market) : Prop where
  gids : DistinctKeys Order.gid s.orders
  numbered : ∀ o ∈ s.orders, o.gid ≤ s.lastGid
  rids : DistinctKeys Request.rid s.inFlight
  apart : ∀ r ∈ s.inFlight, ∀ r' ∈ s.inFlight, ∀ gid, r.at'.gid = some gid → r'.at'.gid = some gid → r = r'
  issued : ∀ e ∈ s.log, e.rid < s.nextRid
  known : ∀ e ∈ s.log, ∀ gid, e.gid = some gid → gid ≤ s.lastGid
  account : ∀ gid, Account s gid
  pending : ∀ r ∈ s.inFlight, Pending s r
  errors : ∀ rid result, Event.answered rid result ∈ s.log → result ≠ .success → Untouched rid s.log

theorem Fair.conserved {s : Market} (h : Fair s) : Conserved s :=
  ⟨fun gid => (h.account gid).once, fun gid => (h.account gid).settled, h.errors⟩

theorem fair_empty : Fair {} where
  gids := nodup_nil
  numbered := nofun
  rids := nodup_nil
  apart := nofun
  issued := nofun
  known := nofun
  account _ := ⟨Nat.zero_le 1, fun _ => rfl, fun _ => rfl, fun _ _ => rfl⟩
  pending := nofun
  errors := nofun

/-! ## Other requests and other orders -/

theorem Phase.append {log es : List Event} {r : Request} (h : Phase log r) (hrid : ∀ e ∈ es, e.rid ≠ r.rid)
    (hgid : ∀ e ∈ es, ∀ gid, r.at'.gid = some gid → e.gid ≠ some gid) : Phase (log ++ es) r := by
  have hu := untouched_elsewhere hrid
  have hclean : ∀ o, r.at'.order = some o → Clean log r.rid o.gid → Clean (log ++ es) r.rid o.gid := by
    intro o ho hc
    obtain ⟨_, hcredited, hcharged⟩ := on_elsewhere fun e he => hgid e he o.gid (congrArg (Option.map Order.gid) ho)
    refine ⟨untouched_append.mpr ⟨hc.untouched, hu⟩, ?_, ?_⟩
    · rw [creditedOn_append, hc.credited, hcredited, append_nil]
    · rw [chargedOn_append, hc.charged, hcharged, append_nil]
  obtain ⟨rid, pid, w⟩ := r
  cases w with
  | sell commodity fee => exact untouched_append.mpr ⟨h, hu⟩
  | takeBack o => exact hclean o rfl h
  | buyerName o tax => exact hclean o rfl h
  | mail o tax => exact hclean o rfl h
  | charge o =>
    obtain ⟨_, hcredited, hcharged⟩ := on_elsewhere fun e he => hgid e he o.gid rfl
    refine h.imp (hclean o rfl) fun ⟨hby, hc, hd⟩ => ⟨?_, ?_, ?_⟩
    · rw [creditedBy_append]
      exact Bool.or_eq_true_iff.mpr (.inl hby)
    · rw [creditedOn_append, hc, hcredited, append_nil]
    · rw [chargedOn_append, hd, hcharged, append_nil]
  | deliver o =>
    obtain ⟨_, hcredited, hcharged⟩ := on_elsewhere fun e he => hgid e he o.gid rfl
    refine ⟨?_, ?_⟩
    · rw [creditedOn_append, h.1, hcredited, append_nil]
    · rw [chargedOn_append, h.2, hcharged, append_nil]

/-- The step from `s` to `s'` is about the request `rid` and the order `g`, if any. -/
structure Local (s s' : Market) (rid : ℕ) (g : Option ℕ) (es : List Event) : Prop where
  log : s'.log = s.log ++ es
  mine : ∀ e ∈ es, e.rid = rid
  about : ∀ e ∈ es, ∀ gid, e.gid = some gid → g = some gid
  others : ∀ r, r.rid ≠ rid → (r ∈ s'.inFlight ↔ r ∈ s.inFlight)
  own : ∀ r ∈ s.inFlight, r.rid = rid → ∀ gid, r.at'.gid = some gid → g = some gid
  own' : ∀ r ∈ s'.inFlight, r.rid = rid → ∀ gid, r.at'.gid = some gid → g = some gid
  alone : ∀ r ∈ s.inFlight, r.rid ≠ rid → ∀ gid, r.at'.gid = some gid → g ≠ some gid
  orders : ∀ o, g ≠ some o.gid → (o ∈ s'.orders ↔ o ∈ s.orders)
  gids : DistinctKeys Order.gid s'.orders
  rids : DistinctKeys Request.rid s'.inFlight
  lastGid : s.lastGid ≤ s'.lastGid
  nextRid : s.nextRid ≤ s'.nextRid
  numbered : ∀ gid, g = some gid → gid ≤ s'.lastGid
  issued : rid < s'.nextRid

namespace Local
variable {s s' : Market} {rid : ℕ} {g : Option ℕ} {es : List Event}

theorem account {gid : ℕ} (hl : Local s s' rid g es) (h : Account s gid) (hne : g ≠ some gid) : Account s' gid := by
  obtain ⟨hhanded, hcredited, hcharged⟩ := on_elsewhere fun e he hg => hne (hl.about e he gid hg)
  have hlisted : Listed s' gid → Listed s gid := by
    rintro ⟨o, ho, rfl⟩
    exact ⟨o, (hl.orders o hne).mp ho, rfl⟩
  have hidle : Idle s' gid → Idle s gid := by
    intro hi r hr hgid
    by_cases hrid : r.rid = rid
    · exact hne (hl.own r hr hrid gid hgid)
    · exact hi r ((hl.others r hrid).mpr hr) hgid
  refine ⟨?_, fun hl' => ?_, fun hi => ?_, fun hl' hi => ?_⟩
  · rw [hl.log, handedOn_append, hhanded, append_nil]
    exact h.once
  · rw [hl.log, handedOn_append, hhanded, append_nil]
    exact h.unhanded (hlisted hl')
  · rw [hl.log, creditedOn_append, hcredited, append_nil, chargedOn_append, hcharged, append_nil]
    exact h.settled (hidle hi)
  · rw [hl.log, creditedOn_append, hcredited, append_nil]
    exact h.unsold (hlisted hl') (hidle hi)

theorem pending {r : Request} (hl : Local s s' rid g es) (hr : r ∈ s.inFlight) (h : Pending s r) (hne : r.rid ≠ rid) :
    Pending s' r := by
  have halone := hl.alone r hr hne
  have hmine : ∀ e ∈ es, e.rid ≠ r.rid := fun e he heq => hne (heq.symm.trans (hl.mine e he))
  refine ⟨Nat.lt_of_lt_of_le h.issued hl.nextRid, fun o ho => ?_, ?_, fun result ha => ?_⟩
  · exact (hl.orders o (halone o.gid (congrArg (Option.map Order.gid) ho))).mpr (h.listed o ho)
  · rw [hl.log]
    exact h.phase.append hmine fun e he gid hgid hg => halone gid hgid (hl.about e he gid hg)
  · rw [hl.log] at ha
    rcases mem_append.mp ha with ha | ha
    · exact h.unanswered result ha
    · exact hmine _ ha rfl

theorem fair (hl : Local s s' rid g es) (h : Fair s) (haccount : ∀ gid, g = some gid → Account s' gid)
    (hnumbered : ∀ o ∈ s'.orders, g = some o.gid ∨ o ∈ s.orders)
    (hpending : ∀ r ∈ s'.inFlight, r.rid = rid → Pending s' r)
    (herrors : ∀ result, Event.answered rid result ∈ s'.log → result ≠ .success → Untouched rid s'.log) : Fair s' where
  gids := hl.gids
  numbered := fun o ho =>
    (hnumbered o ho).elim (hl.numbered o.gid) fun ho => (h.numbered o ho).trans hl.lastGid
  rids := hl.rids
  apart := by
    intro r hr r' hr' gid hgid hgid'
    by_cases hrid : r.rid = rid
    · by_cases hrid' : r'.rid = rid
      · exact inj_on_of_nodup_map hl.rids hr hr' (hrid.trans hrid'.symm)
      · exact absurd (hl.own' r hr hrid gid hgid) (hl.alone r' ((hl.others r' hrid').mp hr') hrid' gid hgid')
    · have hold := (hl.others r hrid).mp hr
      by_cases hrid' : r'.rid = rid
      · exact absurd (hl.own' r' hr' hrid' gid hgid') (hl.alone r hold hrid gid hgid)
      · exact h.apart r hold r' ((hl.others r' hrid').mp hr') gid hgid hgid'
  issued := by
    intro e he
    rw [hl.log] at he
    rcases mem_append.mp he with he | he
    · exact Nat.lt_of_lt_of_le (h.issued e he) hl.nextRid
    · rw [hl.mine e he]
      exact hl.issued
  known := by
    intro e he gid hgid
    rw [hl.log] at he
    rcases mem_append.mp he with he | he
    · exact (h.known e he gid hgid).trans hl.lastGid
    · exact hl.numbered gid (hl.about e he gid hgid)
  account := by
    intro gid
    by_cases hg : g = some gid
    · exact haccount gid hg
    · exact hl.account (h.account gid) hg
  pending := by
    intro r hr
    by_cases hrid : r.rid = rid
    · exact hpending r hr hrid
    · have hold := (hl.others r hrid).mp hr
      exact hl.pending hold (h.pending r hold) hrid
  errors := by
    intro rid' result ha hne
    by_cases hrid : rid' = rid
    · subst hrid
      exact herrors result ha hne
    · have hmine : ∀ e ∈ es, e.rid ≠ rid' := fun e he heq => hrid (heq.symm.trans (hl.mine e he))
      rw [hl.log] at ha ⊢
      rcases mem_append.mp ha with ha | ha
      · exact untouched_append.mpr ⟨h.errors rid' result ha hne, untouched_elsewhere hmine⟩
      · exact absurd rfl (hmine _ ha)

end Local

/-! ## A request that waits on, a request that ends -/

section
variable {s s' : Market} {es : List Event} {r : Request} {o : Order} {rid : ℕ}

theorem Fair.alone (h : Fair s) (hr : r ∈ s.inFlight) (ho : r.at'.order = some o) :
    ∀ r' ∈ s.inFlight, r'.rid ≠ r.rid → ∀ gid, r'.at'.gid = some gid → some o.gid ≠ some gid := by
  intro r' hr' hne gid hgid heq
  exact hne (congrArg Request.rid (h.apart r' hr' r hr gid hgid ((congrArg (Option.map Order.gid) ho).trans heq)))

theorem Fair.own (h : Fair s) (hr : r ∈ s.inFlight) (ho : r.at'.order = some o) :
    ∀ r' ∈ s.inFlight, r'.rid = r.rid → ∀ gid, r'.at'.gid = some gid → some o.gid = some gid := by
  intro r' hr' heq gid hgid
  obtain rfl := inj_on_of_nodup_map h.rids hr' hr heq
  exact (congrArg (Option.map Order.gid) ho).symm.trans hgid

theorem Fair.wait (h : Fair s) {w : Waiting} (hr : lookup Request.rid r.rid s.inFlight = some r)
    (ho : r.at'.order = some o) (hw : w.order = some o) (hmine : ∀ e ∈ es, e.rid = r.rid)
    (habout : ∀ e ∈ es, ∀ gid, e.gid = some gid → some o.gid = some gid) (hhanded : handedOn o.gid es = [])
    (hanswered : ∀ result, Event.answered r.rid result ∉ es) (hphase : Phase (s.log ++ es) { r with at' := w }) :
    Fair { s with log := s.log ++ es, inFlight := (s.wait r w).inFlight } := by
  have hmem := (lookup_some hr).1
  have hp := h.pending r hmem
  have hold := hp.listed o ho
  have hflight := fun b => @mem_adjust _ _ _ Request.rid r.rid (fun r => { r with at' := w }) _ h.rids _ hr b
  have hnew : { r with at' := w } ∈ (s.wait r w).inFlight := (hflight _).mpr (.inl rfl)
  have hbusy : ¬ Idle { s with log := s.log ++ es, inFlight := (s.wait r w).inFlight } o.gid :=
    fun hi => hi _ hnew (congrArg (Option.map Order.gid) hw)
  have hmine' : ∀ r' ∈ (s.wait r w).inFlight, r'.rid = r.rid → r' = { r with at' := w } := by
    intro r' hr' heq
    exact ((hflight r').mp hr').resolve_right fun hne => hne.2 heq
  have hunanswered : ∀ result, Event.answered r.rid result ∉ s.log ++ es := by
    intro result ha
    rcases mem_append.mp ha with ha | ha
    · exact hp.unanswered result ha
    · exact hanswered result ha
  have hl : Local s { s with log := s.log ++ es, inFlight := (s.wait r w).inFlight } r.rid (some o.gid) es :=
    { log := rfl
      mine := hmine
      about := habout
      others := by
        intro r' hne
        refine (hflight r').trans ⟨?_, fun hr' => .inr ⟨hr', hne⟩⟩
        rintro (rfl | hr')
        · exact absurd rfl hne
        · exact hr'.1
      own := h.own hmem ho
      own' := by
        intro r' hr' heq gid hgid
        obtain rfl := hmine' r' hr' heq
        exact (congrArg (Option.map Order.gid) hw).symm.trans hgid
      alone := h.alone hmem ho
      orders := fun _ _ => Iff.rfl
      gids := h.gids
      rids := @DistinctKeys.adjust _ _ _ Request.rid r.rid (fun r => { r with at' := w }) (fun _ => rfl) _ h.rids
      lastGid := le_refl _
      nextRid := le_refl _
      numbered := by
        rintro _ ⟨⟩
        exact h.numbered o hold
      issued := hp.issued }
  refine hl.fair h ?_ (fun _ ho => .inr ho) ?_ fun result ha _ => absurd ha (hunanswered result)
  · rintro _ ⟨⟩
    refine ⟨?_, fun _ => ?_, fun hi => absurd hi hbusy, fun _ hi => absurd hi hbusy⟩
    · rw [handedOn_append, hhanded, append_nil]
      exact (h.account o.gid).once
    · rw [handedOn_append, hhanded, append_nil]
      exact (h.account o.gid).unhanded ⟨o, hold, rfl⟩
  · intro r' hr' heq
    obtain rfl := hmine' r' hr' heq
    refine ⟨hp.issued, fun o' ho' => ?_, hphase, hunanswered⟩
    obtain rfl := some_unique hw ho'
    exact hold

theorem Fair.close {g : Option ℕ} (h : Fair s) (hlog : s'.log = s.log ++ es)
    (hflight : s'.inFlight = discard Request.rid rid s.inFlight) (hmine : ∀ e ∈ es, e.rid = rid)
    (habout : ∀ e ∈ es, ∀ gid, e.gid = some gid → g = some gid)
    (hown : ∀ r ∈ s.inFlight, r.rid = rid → ∀ gid, r.at'.gid = some gid → g = some gid)
    (halone : ∀ r ∈ s.inFlight, r.rid ≠ rid → ∀ gid, r.at'.gid = some gid → g ≠ some gid)
    (horders : ∀ o, g ≠ some o.gid → (o ∈ s'.orders ↔ o ∈ s.orders)) (hgids : DistinctKeys Order.gid s'.orders)
    (hlast : s.lastGid ≤ s'.lastGid) (hnext : s.nextRid ≤ s'.nextRid)
    (hnumbered : ∀ gid, g = some gid → gid ≤ s'.lastGid) (hissued : rid < s'.nextRid)
    (haccount : ∀ gid, g = some gid → Account s' gid)
    (herrors : ∀ result, Event.answered rid result ∈ s'.log → result ≠ .success → Untouched rid s'.log) : Fair s' := by
  have hmem : ∀ r, r ∈ s'.inFlight ↔ r ∈ s.inFlight ∧ r.rid ≠ rid := by
    intro r
    rw [hflight]
    exact mem_discard
  have hl : Local s s' rid g es :=
    { log := hlog
      mine := hmine
      about := habout
      others := fun r hne => (hmem r).trans (and_iff_left hne)
      own := hown
      own' := fun r hr heq => absurd heq ((hmem r).mp hr).2
      alone := halone
      orders := horders
      gids := hgids
      rids := by
        rw [hflight]
        exact h.rids.discard rid
      lastGid := hlast
      nextRid := hnext
      numbered := hnumbered
      issued := hissued }
  refine hl.fair h haccount (fun o ho => ?_) (fun r hr heq => absurd heq ((hmem r).mp hr).2) herrors
  by_cases hg : g = some o.gid
  · exact .inl hg
  · exact .inr ((horders o hg).mp ho)

theorem Fair.refuse (h : Fair s) {e : ℕ → Event} (hrid : ∀ n, (e n).rid = n) (hgid : ∀ n, (e n).gid = none)
    (hmoves : ∀ n, (e n).moves = false) : Fair (s.refuse e) := by
  have hfresh : ∀ r ∈ s.inFlight, r.rid ≠ s.nextRid := fun r hr => Nat.ne_of_lt (h.pending r hr).issued
  have hflight : s.inFlight = discard Request.rid s.nextRid s.inFlight :=
    (filter_eq_self.mpr fun r hr => decide_eq_true (hfresh r hr)).symm
  refine @Fair.close s (s.refuse e) [e s.nextRid] s.nextRid none h rfl hflight ?_ ?_
    (fun r hr heq => absurd heq (hfresh r hr)) nofun (fun _ _ => Iff.rfl) h.gids (le_refl _) (le_succ _) nofun (lt_succ_self _) nofun ?_
  · intro e' he
    rw [mem_singleton.mp he]
    exact hrid _
  · intro e' he gid hg
    rw [mem_singleton.mp he, hgid] at hg
    cases hg
  · intro result _ _ e' he heq
    rcases mem_append.mp he with he | he
    · exact absurd heq (Nat.ne_of_lt (h.issued e' he))
    · rw [mem_singleton.mp he]
      exact hmoves _

theorem Fair.fresh (h : Fair s) : Untouched s.nextRid s.log :=
  fun e he heq => absurd heq (Nat.ne_of_lt (h.issued e he))

theorem Fair.clean (h : Fair s) (ho : o ∈ s.orders) (hi : Idle s o.gid) : Clean s.log s.nextRid o.gid := by
  have hunsold := (h.account o.gid).unsold ⟨o, ho, rfl⟩ hi
  exact ⟨h.fresh, hunsold, ((h.account o.gid).settled hi).symm.trans hunsold⟩

theorem Fair.start (h : Fair s) {pid : ℕ} {w : Waiting} (hidle : ∀ gid, w.gid = some gid → Idle s gid)
    (hlisted : ∀ o, w.order = some o → o ∈ s.orders) (hphase : Phase s.log ⟨s.nextRid, pid, w⟩) :
    Fair (s.start pid w) := by
  have hfresh : ∀ r ∈ s.inFlight, r.rid ≠ s.nextRid := fun r hr => Nat.ne_of_lt (h.pending r hr).issued
  have hmem : ∀ r, r ∈ (s.start pid w).inFlight ↔ r ∈ s.inFlight ∨ r = ⟨s.nextRid, pid, w⟩ := by
    intro r
    exact mem_append.trans (or_congr Iff.rfl mem_singleton)
  have hnew : ∀ r ∈ (s.start pid w).inFlight, r.rid = s.nextRid → r = ⟨s.nextRid, pid, w⟩ :=
    fun r hr heq => ((hmem r).mp hr).resolve_left fun hr => hfresh r hr heq
  have hl : Local s (s.start pid w) s.nextRid w.gid [] :=
    { log := (append_nil _).symm
      mine := nofun
      about := nofun
      others := by
        intro r hne
        refine (hmem r).trans (or_iff_left ?_)
        rintro rfl
        exact hne rfl
      own := fun r hr heq => absurd heq (hfresh r hr)
      own' := by
        intro r hr heq gid hgid
        obtain rfl := hnew r hr heq
        exact hgid
      alone := fun r hr _ gid hgid hw => hidle gid hw r hr hgid
      orders := fun _ _ => Iff.rfl
      gids := h.gids
      rids := h.rids.snoc (lookup_none.mpr hfresh)
      lastGid := le_refl _
      nextRid := le_succ _
      numbered := by
        intro gid hgid
        obtain ⟨o, ho, rfl⟩ := map_eq_some_iff.mp hgid
        exact h.numbered o (hlisted o ho)
      issued := lt_succ_self _ }
  refine hl.fair h ?_ (fun _ ho => .inr ho) ?_ ?_
  · intro gid hgid
    have hbusy : ¬ Idle (s.start pid w) gid := fun hi => hi ⟨s.nextRid, pid, w⟩ ((hmem _).mpr (.inr rfl)) hgid
    exact ⟨(h.account gid).once, (h.account gid).unhanded, fun hi => absurd hi hbusy, fun _ hi => absurd hi hbusy⟩
  · intro r hr heq
    obtain rfl := hnew r hr heq
    exact ⟨lt_succ_self _, hlisted, hphase, fun result ha => absurd rfl (Nat.ne_of_lt (h.issued _ ha))⟩
  · exact fun _ _ _ => h.fresh

theorem Fair.fail (h : Fair s) {result : Result} (hr : r ∈ s.inFlight) (hu : Untouched r.rid s.log)
    (hclean : ∀ o, r.at'.order = some o → Clean s.log r.rid o.gid) : Fair (s.answer r.rid result) := by
  have hp := h.pending r hr
  have hown : ∀ r' ∈ s.inFlight, r'.rid = r.rid → ∀ gid, r'.at'.gid = some gid → r.at'.gid = some gid := by
    intro r' hr' heq gid hgid
    obtain rfl := inj_on_of_nodup_map h.rids hr' hr heq
    exact hgid
  have halone : ∀ r' ∈ s.inFlight, r'.rid ≠ r.rid → ∀ gid, r'.at'.gid = some gid → r.at'.gid ≠ some gid :=
    fun r' hr' hne gid hgid hg => hne (congrArg Request.rid (h.apart r' hr' r hr gid hgid hg))
  refine @Fair.close s (s.answer r.rid result) [.answered r.rid result] r.rid r.at'.gid h rfl rfl ?_ ?_ hown halone
    (fun _ _ => Iff.rfl) h.gids (le_refl _) (le_refl _) ?_ hp.issued ?_ ?_
  · intro e he
    rw [mem_singleton.mp he]
    rfl
  · intro e he gid hg
    rw [mem_singleton.mp he] at hg
    cases hg
  · intro gid hgid
    obtain ⟨o, ho, rfl⟩ := map_eq_some_iff.mp hgid
    exact h.numbered o (hp.listed o ho)
  · intro gid hgid
    obtain ⟨o, ho, rfl⟩ := map_eq_some_iff.mp hgid
    have hc := hclean o ho
    have hcredited : creditedOn o.gid (s.answer r.rid result).log = [] := by
      rw [Market.answer, Market.finish, creditedOn_append, hc.credited]
      rfl
    have hcharged : chargedOn o.gid (s.answer r.rid result).log = [] := by
      rw [Market.answer, Market.finish, chargedOn_append, hc.charged]
      rfl
    have hhanded : handedOn o.gid (s.answer r.rid result).log = handedOn o.gid s.log := by
      rw [Market.answer, Market.finish, handedOn_append]
      exact append_nil _
    refine ⟨?_, fun hl => ?_, fun _ => hcredited.trans hcharged.symm, fun _ _ => hcredited⟩
    · rw [hhanded]
      exact (h.account o.gid).once
    · rw [hhanded]
      exact (h.account o.gid).unhanded hl
  · intro result' _ _
    refine untouched_append.mpr ⟨hu, ?_⟩
    intro e he _
    rw [mem_singleton.mp he]
    rfl

theorem account_gone {gid : ℕ} (horders : s'.orders = discard Order.gid gid s.orders)
    (honce : (handedOn gid s'.log).length ≤ 1) (hpaid : creditedOn gid s'.log = chargedOn gid s'.log) :
    Account s' gid := by
  have hgone : ¬ Listed s' gid := by
    rintro ⟨o, ho, heq⟩
    rw [horders] at ho
    exact (mem_discard.mp ho).2 heq
  exact ⟨honce, fun hl => absurd hl hgone, fun _ => hpaid, fun hl => absurd hl hgone⟩

theorem orders_discard {gid : ℕ} (horders : s'.orders = discard Order.gid gid s.orders) (o : Order)
    (hne : some gid ≠ some o.gid) : o ∈ s'.orders ↔ o ∈ s.orders := by
  rw [horders]
  exact mem_discard.trans (and_iff_left fun heq => hne (congrArg some heq.symm))

theorem Fair.hand (h : Fair s) {pid : ℕ} {commodity : Commodity} {last : Event} (hr : r ∈ s.inFlight)
    (ho : r.at'.order = some o) (hpaid : creditedOn o.gid s.log = chargedOn o.gid s.log)
    (hlast : last = .answered r.rid .success ∨ last = .silent r.rid) :
    Fair { s with
      orders := discard Order.gid o.gid s.orders
      inFlight := discard Request.rid r.rid s.inFlight
      log := s.log ++ [.handed r.rid o.gid pid commodity, last] } := by
  have hp := h.pending r hr
  have hold := hp.listed o ho
  have hes : ∀ e ∈ [Event.handed r.rid o.gid pid commodity, last],
      e = .handed r.rid o.gid pid commodity ∨ e = .answered r.rid .success ∨ e = .silent r.rid := by
    intro e he
    rcases mem_cons.mp he with rfl | he
    · exact .inl rfl
    · rw [mem_singleton.mp he]
      exact .inr hlast
  have honly : handedOn o.gid [Event.handed r.rid o.gid pid commodity, last] = [pid] ∧
      creditedOn o.gid [Event.handed r.rid o.gid pid commodity, last] = [] ∧
      chargedOn o.gid [Event.handed r.rid o.gid pid commodity, last] = [] := by
    rcases hlast with rfl | rfl <;> simp [handedOn, creditedOn, chargedOn]
  refine @Fair.close s _ _ r.rid (some o.gid) h rfl rfl ?_ ?_ (h.own hr ho) (h.alone hr ho) (orders_discard rfl)
    (h.gids.discard o.gid) (le_refl _) (le_refl _) ?_ hp.issued ?_ ?_
  · intro e he
    rcases hes e he with rfl | rfl | rfl <;> rfl
  · intro e he gid hgid
    rcases hes e he with rfl | rfl | rfl
    · exact hgid
    · cases hgid
    · cases hgid
  · rintro _ ⟨⟩
    exact h.numbered o hold
  · rintro _ ⟨⟩
    refine account_gone rfl ?_ ?_
    · rw [handedOn_append, honly.1, (h.account o.gid).unhanded ⟨o, hold, rfl⟩]
      exact le_refl 1
    · rw [creditedOn_append, chargedOn_append, honly.2.1, honly.2.2, hpaid]
  · intro result ha hne
    rcases mem_append.mp ha with ha | ha
    · exact absurd ha (hp.unanswered result)
    · rcases hes _ ha with heq | heq | heq
      · cases heq
      · exact absurd (Event.answered.inj heq).2 hne
      · cases heq

theorem Fair.remove (h : Fair s) (ho : o ∈ s.orders) (hi : Idle s o.gid) :
    Fair { s with
      orders := discard Order.gid o.gid s.orders
      inFlight := discard Request.rid s.nextRid s.inFlight
      nextRid := s.nextRid + 1
      log := s.log ++ [.answered s.nextRid .success] } := by
  have hfresh : ∀ r ∈ s.inFlight, r.rid ≠ s.nextRid := fun r hr => Nat.ne_of_lt (h.pending r hr).issued
  have hes : ∀ e ∈ [Event.answered s.nextRid .success], e = .answered s.nextRid .success :=
    fun _ he => mem_singleton.mp he
  refine @Fair.close s _ _ s.nextRid (some o.gid) h rfl rfl ?_ ?_ (fun r hr heq => absurd heq (hfresh r hr)) ?_
    (orders_discard rfl) (h.gids.discard o.gid) (le_refl _) (le_succ _) ?_ (lt_succ_self _) ?_ ?_
  · intro e he
    rw [hes e he]
    rfl
  · intro e he gid hgid
    rw [hes e he] at hgid
    cases hgid
  · rintro r hr _ gid hgid ⟨⟩
    exact hi r hr hgid
  · rintro _ ⟨⟩
    exact h.numbered o ho
  · rintro _ ⟨⟩
    refine account_gone rfl ?_ ?_
    · rw [handedOn_append]
      exact (congrArg List.length (append_nil _)).trans_le (h.account o.gid).once
    · rw [creditedOn_append, chargedOn_append, (h.account o.gid).settled hi]
      rfl
  · intro result ha hne
    rcases mem_append.mp ha with ha | ha
    · exact absurd rfl (Nat.ne_of_lt (h.issued _ ha))
    · exact absurd (Event.answered.inj (hes _ ha)).2 hne

theorem Fair.sold (h : Fair s) {commodity : Commodity} {fee : Cost} (hr : r ∈ s.inFlight) (hw : r.at'.gid = none)
    (hgid : o.gid = s.lastGid + 1) :
    Fair { s with
      orders := s.orders ++ [o]
      lastGid := s.lastGid + 1
      inFlight := discard Request.rid r.rid s.inFlight
      log := s.log ++ [.taken r.rid r.pid commodity fee, .answered r.rid .success] } := by
  have hp := h.pending r hr
  have hes : ∀ e ∈ [Event.taken r.rid r.pid commodity fee, .answered r.rid .success],
      e.rid = r.rid ∧ e.gid = none := by
    intro e he
    rcases mem_pair.mp he with rfl | rfl <;> exact ⟨rfl, rfl⟩
  have hunknown : ∀ gid, some o.gid = some gid → ∀ e ∈ s.log, e.gid ≠ some gid := by
    rintro _ ⟨⟩ e he heq
    have hle := h.known e he o.gid heq
    omega
  have hnew : ∀ r ∈ s.inFlight, ∀ gid, r.at'.gid = some gid → gid ≠ o.gid := by
    intro r hr gid hg heq
    obtain ⟨o', ho', rfl⟩ := map_eq_some_iff.mp hg
    have hle := h.numbered o' ((h.pending r hr).listed o' ho')
    omega
  refine @Fair.close s _ _ r.rid (some o.gid) h rfl rfl (fun e he => (hes e he).1) ?_ ?_ ?_ ?_ ?_ (le_succ _)
    (le_refl _) ?_ hp.issued ?_ ?_
  · intro e he gid hg
    exact nomatch ((hes e he).2.symm.trans hg)
  · intro r' hr' heq gid hg
    obtain rfl := inj_on_of_nodup_map h.rids hr' hr heq
    exact nomatch hw.symm.trans hg
  · rintro r' hr' _ gid hg ⟨⟩
    exact hnew r' hr' _ hg rfl
  · intro o' hne
    refine mem_append.trans (or_iff_left fun ho' => ?_)
    rw [mem_singleton.mp ho'] at hne
    exact hne rfl
  · refine h.gids.snoc (lookup_none.mpr fun o' ho' heq => ?_)
    have hle := h.numbered o' ho'
    omega
  · rintro _ ⟨⟩
    exact hgid.le
  · intro gid hg
    obtain ⟨hhanded, hcredited, hcharged⟩ := on_elsewhere (hunknown gid hg)
    refine ⟨?_, fun _ => ?_, fun _ => ?_, fun _ _ => ?_⟩
    · rw [handedOn_append, hhanded]
      exact Nat.zero_le 1
    · rw [handedOn_append, hhanded]
      rfl
    · rw [creditedOn_append, chargedOn_append, hcredited, hcharged]
      rfl
    · rw [creditedOn_append, hcredited]
      rfl
  · intro result ha hne
    rcases mem_append.mp ha with ha | ha
    · exact absurd ha (hp.unanswered result)
    · rcases mem_pair.mp ha with heq | heq
      · cases heq
      · exact absurd (Event.answered.inj heq).2 hne

end

/-! ## Steps -/

section
variable {s : Market} {r : Request} {o : Order}

theorem removeOrder_of_get (s : Market) {gid : ℕ} (hget : s.getOrder gid = some o) :
    s.removeOrder gid = some { s with orders := discard Order.gid gid s.orders } := by
  simp only [Market.removeOrder, hget]

theorem Fair.refused (h : Fair s) (result : Result) : Fair (s.refuse (.answered · result)) :=
  h.refuse (fun _ => rfl) (fun _ => rfl) (fun _ => rfl)

theorem Fair.assign (h : Fair s) (now : ℕ) (cost : Option Cost) : Fair { s with now, cost } where
  gids := h.gids
  numbered := h.numbered
  rids := h.rids
  apart := h.apart
  issued := h.issued
  known := h.known
  account gid := ⟨(h.account gid).once, (h.account gid).unhanded, (h.account gid).settled, (h.account gid).unsold⟩
  pending r hr := ⟨(h.pending r hr).issued, (h.pending r hr).listed, (h.pending r hr).phase, (h.pending r hr).unanswered⟩
  errors := h.errors

theorem fair_processTradeSell {T : Tables} {pid : ℕ} {commodity : Option Commodity} {price : Option ℤ} {assessPrice : ℚ}
    (h : Fair s) : Fair (processTradeSell T s pid commodity price assessPrice) := by
  cases commodity with
  | none => exact h.refused .paramError
  | some commodity =>
    cases price with
    | none => exact h.refused .paramError
    | some price =>
      simp only [processTradeSell]
      split
      · split
        · exact h.refused .error
        · split
          · split
            · exact (h.assign s.now _).start nofun nofun h.fresh
            · exact (h.assign s.now _).refused .paramError
          · exact (h.assign s.now _).refused .error
      · exact h.refused .error

theorem fair_sellReply {commodity : Commodity} {fee : Cost} {ok : Bool} {level quality : ℕ} (h : Fair s)
    (hr : r ∈ s.inFlight) (hw : r.at' = .sell commodity fee) (hreg : ok = true → s.Accepts commodity) :
    Fair (sellReply s r commodity fee ok level quality) := by
  have hu : Untouched r.rid s.log := by
    have hp := (h.pending r hr).phase
    simpa only [Phase, hw] using hp
  cases ok with
  | false =>
    refine h.fail hr hu fun o ho => ?_
    rw [hw] at ho
    cases ho
  | true =>
    obtain ⟨⟨cost, hcost, hprice⟩, hvalue⟩ := hreg rfl
    have hcost : (s.note (.taken r.rid r.pid commodity fee)).cost = some cost := hcost
    simp only [sellReply, if_true, hcost]
    generalize hput : (if commodity.type = commodityTypeItem then { commodity with equipLevel := 0, equipQuality := 0 }
      else { commodity with equipLevel := level, equipQuality := quality } : Commodity) = put
    have hpositive : ¬ (cost.value ≤ 0 ∨ put.value ≤ 0) := by
      have hsame : put.value = commodity.value := by
        rw [← hput]
        split <;> rfl
      omega
    simp only [Market.setOrder, if_neg hpositive, Market.answer, Market.finish, Market.note, append_assoc]
    exact h.sold hr (congrArg Waiting.gid hw) rfl

theorem fair_processTradeTakeBack {pid : ℕ} {gid : Option ℕ} (h : Fair s) (hreg : Regular s (.takeBack pid gid)) :
    Fair (processTradeTakeBack s pid gid) := by
  cases gid with
  | none => exact h.refused .paramError
  | some gid =>
    cases hget : s.getOrder gid with
    | none =>
      simp only [processTradeTakeBack, hget]
      exact h.refused .notExist
    | some o =>
      obtain ⟨ho, rfl⟩ := lookup_some hget
      have hi : Idle s o.gid := hreg
      simp only [processTradeTakeBack, hget]
      split
      · exact h.refuse (fun _ => rfl) (fun _ => rfl) (fun _ => rfl)
      · split
        · refine h.start ?_ ?_ (h.clean ho hi)
          · rintro _ ⟨⟩
            exact hi
          · rintro _ ⟨⟩
            exact ho
        · simp only [removeAfterTakeBack, removeOrder_of_get { s with nextRid := s.nextRid + 1 } hget]
          exact h.remove ho hi

theorem fair_takeBackReply {ok : Bool} (h : Fair s) (hr : r ∈ s.inFlight) (hw : r.at' = .takeBack o) :
    Fair (takeBackReply s r o ok) := by
  have ho : r.at'.order = some o := congrArg Waiting.order hw
  have hphase : Clean s.log r.rid o.gid := by
    have hp := (h.pending r hr).phase
    simpa only [Phase, hw] using hp
  cases ok with
  | false =>
    refine h.fail hr hphase.untouched fun o' ho' => ?_
    obtain rfl := some_unique ho ho'
    exact hphase
  | true =>
    have hget : s.getOrder o.gid = some o := lookup_of_mem h.gids ((h.pending r hr).listed o ho)
    have hremove := removeOrder_of_get (s.note (.handed r.rid o.gid o.seller o.commodity)) hget
    simp only [takeBackReply, if_true, removeAfterTakeBack, hremove]
    simp only [Market.answer, Market.finish, Market.note, append_assoc]
    exact h.hand hr ho (hphase.credited.trans hphase.charged.symm) (.inl rfl)

theorem fair_processTradeBuy {T : Tables} {pid : ℕ} {gid : Option ℕ} {taxRate : ℚ} {recorded : Bool} (h : Fair s)
    (hreg : Regular s (.buy pid gid taxRate recorded)) : Fair (processTradeBuy T s pid gid taxRate recorded) := by
  cases gid with
  | none => exact h.refused .paramError
  | some gid =>
    cases hget : s.getOrder gid with
    | none =>
      simp only [processTradeBuy, hget]
      exact h.refused .tradeNotExist
    | some o =>
      obtain ⟨ho, rfl⟩ := lookup_some hget
      have hi : Idle s o.gid := hreg
      simp only [processTradeBuy, hget]
      split
      · exact h.refused .tradeOutOfDate
      · split
        · split
          · exact h.refused .error
          · refine h.start ?_ ?_ (h.clean ho hi)
            · rintro _ ⟨⟩
              exact hi
            · rintro _ ⟨⟩
              exact ho
        · exact h.refused .error

theorem Fair.waits (h : Fair s) {w : Waiting} (hr : lookup Request.rid r.rid s.inFlight = some r)
    (ho : r.at'.order = some o) (hw : w.order = some o) (hphase : Phase s.log { r with at' := w }) :
    Fair (s.wait r w) := by
  have hf := @Fair.wait s [] r o h w hr ho hw nofun nofun rfl nofun (by rwa [append_nil])
  simp only [append_nil] at hf
  exact hf

theorem Fair.notes (h : Fair s) {w : Waiting} {e : Event} (hr : lookup Request.rid r.rid s.inFlight = some r)
    (ho : r.at'.order = some o) (hw : w.order = some o) (hrid : e.rid = r.rid) (hgid : e.gid = some o.gid)
    (hhanded : handedOn o.gid [e] = []) (hphase : Phase (s.log ++ [e]) { r with at' := w }) :
    Fair ((s.note e).wait r w) := by
  refine h.wait hr ho hw ?_ ?_ hhanded ?_ hphase
  · intro e' he
    rw [mem_singleton.mp he]
    exact hrid
  · intro e' he gid hg
    rw [mem_singleton.mp he] at hg
    exact hgid.symm.trans hg
  · intro result he
    rw [← mem_singleton.mp he] at hgid
    cases hgid

theorem fair_mailReply {tax : ℤ} {ok : Bool} (h : Fair s) (hr : lookup Request.rid r.rid s.inFlight = some r)
    (hw : r.at' = .mail o tax) : Fair (mailReply s r o tax ok) := by
  have ho : r.at'.order = some o := congrArg Waiting.order hw
  have hphase : Clean s.log r.rid o.gid := by
    have hp := (h.pending r (lookup_some hr).1).phase
    simpa only [Phase, hw] using hp
  cases ok with
  | false => exact h.waits hr ho rfl (.inl hphase)
  | true =>
    refine h.notes hr ho rfl rfl rfl rfl (.inr ⟨?_, ?_, ?_⟩)
    · rw [creditedBy_append]
      simp [creditedBy]
    · rw [creditedOn_append, hphase.credited]
      simp [creditedOn]
    · rw [chargedOn_append, hphase.charged]
      rfl

theorem fair_chargeReply {ok : Bool} (h : Fair s) (hr : lookup Request.rid r.rid s.inFlight = some r)
    (hw : r.at' = .charge o) (hreg : ok = creditedBy r.rid s.log) : Fair (chargeReply s r o ok) := by
  have hmem := (lookup_some hr).1
  have ho : r.at'.order = some o := congrArg Waiting.order hw
  have hphase : Clean s.log r.rid o.gid ∨
      creditedBy r.rid s.log = true ∧ creditedOn o.gid s.log = [o.cost.value] ∧ chargedOn o.gid s.log = [] := by
    have hp := (h.pending r hmem).phase
    simpa only [Phase, hw] using hp
  rcases hphase with hclean | ⟨hby, hcredited, hcharged⟩
  · rw [creditedBy_of_untouched hclean.untouched] at hreg
    subst hreg
    refine h.fail hmem hclean.untouched fun o' ho' => ?_
    obtain rfl := some_unique ho ho'
    exact hclean
  · rw [hby] at hreg
    subst hreg
    refine h.notes hr ho rfl rfl rfl rfl ⟨?_, ?_⟩
    · rw [creditedOn_append, hcredited]
      rfl
    · rw [chargedOn_append, hcharged]
      simp [chargedOn]

theorem fair_deliverReply {concern : Bool} (h : Fair s) (hr : r ∈ s.inFlight) (hw : r.at' = .deliver o) :
    Fair (deliverReply s r o true concern) := by
  have ho : r.at'.order = some o := congrArg Waiting.order hw
  have hphase : creditedOn o.gid s.log = [o.cost.value] ∧ chargedOn o.gid s.log = [o.cost.value] := by
    have hp := (h.pending r hr).phase
    simpa only [Phase, hw] using hp
  have hpaid := hphase.1.trans hphase.2.symm
  have hget : s.getOrder o.gid = some o := lookup_of_mem h.gids ((h.pending r hr).listed o ho)
  have hremove := removeOrder_of_get (s.note (.handed r.rid o.gid r.pid o.commodity)) hget
  simp only [deliverReply, if_true, hremove]
  cases concern with
  | false =>
    simp only [Bool.false_eq_true, if_false, Market.finish, Market.note, append_assoc]
    exact h.hand hr ho hpaid (.inr rfl)
  | true =>
    simp only [if_true, Market.answer, Market.finish, Market.note, append_assoc]
    exact h.hand hr ho hpaid (.inl rfl)

theorem fair_reply {rid : ℕ} {ok : Bool} {level quality : ℕ} {concern : Bool} (h : Fair s)
    (hr : lookup Request.rid rid s.inFlight = some r) (hreg : Regular s (.reply rid ok level quality concern)) :
    Fair (reply s r ok level quality concern) := by
  obtain ⟨hmem, rfl⟩ := lookup_some hr
  simp only [Regular, hr] at hreg
  cases hw : r.at' with
  | sell commodity fee =>
    simp only [hw] at hreg
    simp only [reply, hw]
    exact fair_sellReply h hmem hw hreg
  | takeBack o =>
    simp only [reply, hw]
    exact fair_takeBackReply h hmem hw
  | buyerName o tax =>
    have hp := (h.pending r hmem).phase
    simp only [Phase, hw] at hp
    simp only [reply, hw]
    exact h.waits hr (congrArg Waiting.order hw) rfl hp
  | mail o tax =>
    simp only [reply, hw]
    exact fair_mailReply h hr hw
  | charge o =>
    simp only [hw] at hreg
    simp only [reply, hw]
    exact fair_chargeReply h hr hw hreg
  | deliver o =>
    simp only [hw] at hreg
    subst hreg
    simp only [reply, hw]
    exact fair_deliverReply h hmem hw

theorem fair_step {T : Tables} {s' : Market} {a : Act} (h : Fair s) (hreg : Regular s a) (hstep : step T s a = .ok s') :
    Fair s' := by
  cases a with
  | clock seconds =>
    obtain rfl := Except.ok.inj hstep
    exact h.assign _ s.cost
  | sell pid commodity price assessPrice =>
    obtain rfl := Except.ok.inj hstep
    exact fair_processTradeSell h
  | takeBack pid gid =>
    obtain rfl := Except.ok.inj hstep
    exact fair_processTradeTakeBack h hreg
  | buy pid gid taxRate recorded =>
    obtain rfl := Except.ok.inj hstep
    exact fair_processTradeBuy h hreg
  | reply rid ok level quality concern =>
    cases hr : lookup Request.rid rid s.inFlight with
    | none =>
      simp only [step, hr] at hstep
      obtain rfl := Except.ok.inj hstep
      exact h
    | some r =>
      simp only [step, hr] at hstep
      obtain rfl := Except.ok.inj hstep
      exact fair_reply h hr hreg

end

/-! ## Runs -/

/-- In every run of which every step is regular, every order is conserved throughout. -/
theorem market_conserved (T : Tables) (acts : List Act) (h : Along (step T) Regular ({} : Market) acts) :
    Throughout (step T) Conserved {} acts :=
  run_throughout (fun _ => Fair.conserved) (fun _ _ _ => fair_step) acts {} fair_empty h

def oneItem : Tables where
  trade type id := if type = commodityTypeItem ∧ id = 90001 then some ⟨1, 41, 90006, 41, 90006, 1⟩ else none
  exchangeRate _ _ := none

def putUp : List Act := [.sell 7 (some ⟨41, 90001, 1, 0, 0, 0⟩) (some 100) 100, .reply 0 true 0 0 true]

theorem market_conserved_sale : Throughout (step oneItem) Conserved {}
    (putUp ++ [.buy 8 (some 1) (1 / 10) true, .reply 1 true 0 0 true, .reply 1 true 0 0 true, .reply 1 true 0 0 true,
      .reply 1 true 0 0 true]) := by
  refine market_conserved oneItem _ ?_
  decide +kernel

/-- The mail to the seller goes out, then the buyer cannot pay: the seller is credited for a commodity
that stays on the market, and nobody is charged. -/
theorem seller_credited_unpaid : ¬ ∀ (T : Tables) (acts : List Act), Throughout (step T) Conserved {} acts := by
  intro h
  refine not_throughout (fun s => decide (Idle s 1) && decide (creditedOn 1 s.log ≠ chargedOn 1 s.log)) ?_ ?_
    (h oneItem (putUp ++ [.buy 8 (some 1) (1 / 10) true, .reply 1 true 0 0 true, .reply 1 true 0 0 true,
      .reply 1 false 0 0 true]))
  · decide +kernel
  · intro s hs hc
    obtain ⟨hi, hne⟩ := Bool.and_eq_true_iff.mp hs
    exact of_decide_eq_true hne (hc.credited 1 (of_decide_eq_true hi))

end CServer.Consume
