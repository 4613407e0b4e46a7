import CServer.Framework.Network

/-! # `framework/network.c`: the integrity of the two lists

`Links net A B L`: the active list is the chain `A`, the closing list the chain `B`, the slots in
use are `L`, and the flags of every connection in use say which list it is on. A connection on one
list must not be put on the other, and the code does not look: `Sane` calls do not do it.
-/
namespace CServer.Framework
open CServer.Lib Function List

def Network.nextOf (net : Network) (i : ℕ) : Option ℕ := (net.conns i).next

def Network.idOf (net : Network) (i : ℕ) : ℕ := (net.conns i).id

structure Links (net : Network) (A B L : List ℕ) : Prop where
  lrm : net.lrm.Ok
  active : Chain net.nextOf some none net.activeList A
  closing : Chain net.nextOf some none net.closingList B
  nodup : (A ++ B).Nodup
  live_nodup : L.Nodup
  live : ∀ i, i ∈ L ↔ i < net.lrm.max ∧ net.lrm.inUse i
  sub : ∀ i ∈ A ++ B, i ∈ L
  id_eq : ∀ i ∈ L, net.idOf i = (net.lrm.res i).id
  inActive : ∀ i ∈ L, ((net.conns i).inActiveList = true ↔ i ∈ A)
  isClosing : ∀ i ∈ L, ((net.conns i).status = .closing ↔ i ∈ B)
  next_none : ∀ i ∈ L, i ∉ A ++ B → net.nextOf i = none
  buf : ∀ i, BufOk (net.conns i).wbuf
  closed : net.trace.closed.Perm (net.trace.freed ++ B.map net.idOf)
  activated : net.trace.activated.Perm (net.trace.visited ++ A.map net.idOf)

def Accounted (net : Network) (L : List ℕ) : Prop :=
  net.trace.opened.Perm (net.trace.freed ++ L.map net.idOf)

/-! ## Updates that do not touch the lists -/

structure SameLinks (c c' : Conn) : Prop where
  next : c'.next = c.next
  inActive : c'.inActiveList = c.inActiveList
  id : c'.id = c.id
  isClosing : c'.status = .closing ↔ c.status = .closing
  buf : BufOk c.wbuf → BufOk c'.wbuf

theorem SameLinks.refl (c : Conn) : SameLinks c c := ⟨rfl, rfl, rfl, Iff.rfl, fun h => h⟩

theorem Links.frame {net net' : Network} {A B L : List ℕ} (h : Links net A B L) (hlrm : net'.lrm = net.lrm)
    (hactive : net'.activeList = net.activeList) (hclosing : net'.closingList = net.closingList)
    (htrace : net'.trace = net.trace) (hconns : ∀ i, SameLinks (net.conns i) (net'.conns i)) :
    Links net' A B L := by
  have hnext : net'.nextOf = net.nextOf := funext fun i => (hconns i).next
  have hid : net'.idOf = net.idOf := funext fun i => (hconns i).id
  constructor
  case lrm => rw [hlrm]; exact h.lrm
  case active => rw [hnext, hactive]; exact h.active
  case closing => rw [hnext, hclosing]; exact h.closing
  case nodup => exact h.nodup
  case live_nodup => exact h.live_nodup
  case live => rw [hlrm]; exact h.live
  case sub => exact h.sub
  case id_eq => rw [hlrm, hid]; exact h.id_eq
  case inActive => intro i hi; rw [(hconns i).inActive]; exact h.inActive i hi
  case isClosing => intro i hi; rw [(hconns i).isClosing]; exact h.isClosing i hi
  case next_none => rw [hnext]; exact h.next_none
  case buf => exact fun i => (hconns i).buf (h.buf i)
  case closed => rw [htrace, hid]; exact h.closed
  case activated => rw [htrace, hid]; exact h.activated

theorem sameLinks_update {conns : ℕ → Conn} {i : ℕ} {c : Conn} (h : SameLinks (conns i) c) (j : ℕ) :
    SameLinks (conns j) (update conns i c j) := by
  by_cases hj : j = i
  · subst hj
    rwa [update_self]
  · rw [update_of_ne hj]
    exact .refl _

theorem Links.setConn {net : Network} {A B L : List ℕ} (h : Links net A B L) {i : ℕ} {c : Conn}
    (hc : SameLinks (net.conns i) c) : Links (net.setConn i c) A B L :=
  h.frame rfl rfl rfl rfl (sameLinks_update hc)

variable {net : Network}

theorem Network.idOf_setConn {i : ℕ} {c : Conn} (hc : c.id = net.idOf i) :
    (net.setConn i c).idOf = net.idOf := by
  funext j
  by_cases hj : j = i
  · subst hj
    rw [Network.idOf, Network.setConn_self]
    exact hc
  · rw [Network.idOf, Network.setConn_of_ne net i c hj]
    rfl

theorem Network.nextOf_setConn (net : Network) (i : ℕ) (c : Conn) :
    (net.setConn i c).nextOf = update net.nextOf i c.next := by
  funext j
  by_cases hj : j = i
  · subst hj
    rw [Network.nextOf, Network.setConn_self, update_self]
  · rw [Network.nextOf, Network.setConn_of_ne net i c hj, update_of_ne hj]
    rfl

theorem Accounted.setConn {net : Network} {L : List ℕ} (h : Accounted net L) {i : ℕ} {c : Conn}
    (hc : c.id = net.idOf i) : Accounted (net.setConn i c) L := by
  rw [Accounted, Network.idOf_setConn hc]
  exact h

theorem sameLinks_setEvent (ctl : Int) (c : Conn) (events : ℕ) : SameLinks c (connSetEvent ctl c events).2 := by
  obtain ⟨ev, hev⟩ := connSetEvent_frame ctl c events
  rw [hev]
  exact ⟨rfl, rfl, rfl, Iff.rfl, id⟩

theorem Links.setEvent {net : Network} {A B L : List ℕ} (h : Links net A B L) (ctl : Int) (i events : ℕ) :
    Links (net.setEvent ctl i events) A B L :=
  h.setConn (sameLinks_setEvent ctl (net.conns i) events)

theorem Accounted.setEvent {net : Network} {L : List ℕ} (h : Accounted net L) (ctl : Int) (i events : ℕ) :
    Accounted (net.setEvent ctl i events) L :=
  h.setConn (sameLinks_setEvent ctl (net.conns i) events).id

variable {A B L : List ℕ}

theorem Links.relink (h : Links net A B L) {i : ℕ} (hi : i ∈ L)
    (net' : Network) (A' B' : List ℕ) (c : Conn) (hlrm : net'.lrm = net.lrm) (hconns : net'.conns = update net.conns i c)
    (hid : c.id = net.idOf i) (hbuf : c.wbuf = (net.conns i).wbuf)
    (hactive : Chain (update net.nextOf i c.next) some none net'.activeList A')
    (hclosing : Chain (update net.nextOf i c.next) some none net'.closingList B')
    (hnodup : (A' ++ B').Nodup) (hA : ∀ j, j ≠ i → (j ∈ A' ↔ j ∈ A)) (hB : ∀ j, j ≠ i → (j ∈ B' ↔ j ∈ B))
    (hflag : c.inActiveList = true ↔ i ∈ A') (hstatus : c.status = .closing ↔ i ∈ B')
    (hnone : i ∉ A' ++ B' → c.next = none)
    (hclosed : net'.trace.closed.Perm (net'.trace.freed ++ B'.map net.idOf))
    (hactivated : net'.trace.activated.Perm (net'.trace.visited ++ A'.map net.idOf)) : Links net' A' B' L := by
  have hself : net'.conns i = c := by rw [hconns, update_self]
  have hother : ∀ j, j ≠ i → net'.conns j = net.conns j := fun j hj => by rw [hconns, update_of_ne hj]
  have hnext : net'.nextOf = update net.nextOf i c.next := by
    have : net'.nextOf = (net.setConn i c).nextOf := funext fun j => by rw [Network.nextOf, hconns]; rfl
    rw [this, Network.nextOf_setConn]
  have hids : net'.idOf = net.idOf := by
    have : net'.idOf = (net.setConn i c).idOf := funext fun j => by rw [Network.idOf, hconns]; rfl
    rw [this, Network.idOf_setConn hid]
  have hmem : ∀ j, j ≠ i → (j ∈ A' ++ B' ↔ j ∈ A ++ B) := fun j hj => by
    rw [mem_append, mem_append, hA j hj, hB j hj]
  constructor
  case lrm => rw [hlrm]; exact h.lrm
  case active => rw [hnext]; exact hactive
  case closing => rw [hnext]; exact hclosing
  case nodup => exact hnodup
  case live_nodup => exact h.live_nodup
  case live => rw [hlrm]; exact h.live
  case sub =>
    intro j hj
    by_cases hji : j = i
    · rw [hji]
      exact hi
    · exact h.sub j ((hmem j hji).mp hj)
  case id_eq => rw [hids, hlrm]; exact h.id_eq
  case inActive =>
    intro j hj
    by_cases hji : j = i
    · rw [hji, hself]
      exact hflag
    · rw [hother j hji, hA j hji]
      exact h.inActive j hj
  case isClosing =>
    intro j hj
    by_cases hji : j = i
    · rw [hji, hself]
      exact hstatus
    · rw [hother j hji, hB j hji]
      exact h.isClosing j hj
  case next_none =>
    intro j hj hout
    rw [hnext]
    by_cases hji : j = i
    · subst hji
      rw [update_self]
      exact hnone hout
    · rw [update_of_ne hji]
      exact h.next_none j hj fun hin => hout ((hmem j hji).mpr hin)
  case buf =>
    intro j
    by_cases hji : j = i
    · rw [hji, hself, hbuf]
      exact h.buf i
    · rw [hother j hji]
      exact h.buf j
  case closed => rw [hids]; exact hclosed
  case activated => rw [hids]; exact hactivated

/-! ## Activating -/

theorem debugLoop_ok {next : ℕ → Option ℕ} {head : Option ℕ} (hhead : head ≠ none) (fuel : ℕ) :
    ∀ (n : Option ℕ) (xs : List ℕ), Chain next some none n xs → (∀ x ∈ xs.tail, some x ≠ head) →
      xs.length < fuel → debugLoop next head fuel n = .ok () := by
  induction fuel with
  | zero =>
    intro n xs _ _ hfuel
    omega
  | succ fuel ih =>
    intro n xs hchain htail hfuel
    cases xs with
    | nil =>
      obtain rfl : n = none := hchain
      rfl
    | cons x xs =>
      obtain ⟨rfl, hchain⟩ := hchain
      have hne : next x ≠ head := by
        cases xs with
        | nil => rw [show next x = none from hchain]; exact hhead.symm
        | cons y ys => rw [hchain.1]; exact htail y (by simp)
      rw [debugLoop, assert_of (decide_eq_true hne), ok_bind]
      refine ih (next x) xs hchain (fun y hy => htail y ?_) (by simpa using hfuel)
      exact mem_of_mem_tail hy

theorem Links.length_le {net : Network} {A B L : List ℕ} (h : Links net A B L) :
    (A ++ B).length ≤ net.lrm.max := by
  have hsub : A ++ B ⊆ List.range net.lrm.max := fun i hi =>
    mem_range.mpr ((h.live i).mp (h.sub i hi)).1
  have := (h.nodup.subperm hsub).length_le
  rwa [length_range] at this

theorem Links.debugLoop_ok {net : Network} {A B L : List ℕ} (h : Links net A B L) :
    debugLoop (fun j => (net.conns j).next) net.activeList (net.lrm.max + 1) net.activeList = .ok () := by
  have hlen := h.length_le
  rw [length_append] at hlen
  cases A with
  | nil =>
    have hnone : net.activeList = none := h.active
    rw [hnone]
    rfl
  | cons a A =>
    have hhead : net.activeList = some a := h.active.1
    refine Framework.debugLoop_ok (by rw [hhead]; simp) _ _ (a :: A) h.active ?_ (by omega)
    intro x hx hxa
    rw [hhead, Option.some_inj] at hxa
    subst hxa
    exact (nodup_cons.mp (nodup_append.mp h.nodup).1).1 hx

theorem networkActive_ok (h : Links net A B L) {i : ℕ} (hi : i ∈ L)
    (hsane : ¬ ((net.conns i).status = .closing ∧ (net.conns i).next = none)) :
    ∃ net' A', networkActive net i = .ok net' ∧ Links net' A' B L ∧ net'.idOf = net.idOf ∧
      net'.trace.opened = net.trace.opened ∧ net'.trace.freed = net.trace.freed ∧
      (net'.conns i).wbuf = (net.conns i).wbuf := by
  by_cases hput : (net.conns i).next = none ∧ (net.conns i).inActiveList = false
  · have hA : i ∉ A := fun hin => by simp [(h.inActive i hi).mpr hin] at hput
    have hB : i ∉ B := fun hin => hsane ⟨(h.isClosing i hi).mpr hin, hput.1⟩
    have hlinks := h.relink hi (pushActive net i) (i :: A) B
      { net.conns i with next := net.activeList, inActiveList := true } rfl rfl rfl rfl
      (h.active.push hA) (h.closing.update hB _) (nodup_cons.mpr ⟨by simp [hA, hB], h.nodup⟩)
      (fun j hj => by simp [hj]) (fun j _ => Iff.rfl) (by simp) (h.isClosing i hi) (by simp) h.closed
      ((h.activated.cons _).trans perm_middle.symm)
    refine ⟨pushActive net i, i :: A, ?_, hlinks, Network.idOf_setConn rfl, rfl, rfl, ?_⟩
    · simp only [networkActive, if_pos hput, hlinks.debugLoop_ok, ok_bind, pure_eq_ok]
    · simp [pushActive]
  · refine ⟨net, A, ?_, h, rfl, rfl, rfl, rfl⟩
    simp only [networkActive, if_neg hput, h.debugLoop_ok, ok_bind, pure_eq_ok]

/-! ## Closing -/

theorem agNClose_ok (h : Links net A B L) (ctl : Int) {id : ℕ}
    (hsane : ∀ i, agRGet net.lrm id = some i → (net.conns i).status ≠ .closing →
      net.lrm.inUse i ∧ (net.conns i).inActiveList = false) :
    ∃ B', Links (agNClose ctl net id) A B' L ∧ (agNClose ctl net id).idOf = net.idOf ∧
      (agNClose ctl net id).trace.opened = net.trace.opened ∧
      (agNClose ctl net id).trace.freed = net.trace.freed := by
  cases hget : agRGet net.lrm id with
  | none =>
    rw [agNClose, hget]
    exact ⟨B, h, rfl, rfl, rfl⟩
  | some i =>
    by_cases hst : (net.conns i).status = .closing
    · have hclose : agNClose ctl net id = net := by
        rw [agNClose, hget]
        exact if_neg (not_not.mpr hst)
      rw [hclose]
      exact ⟨B, h, rfl, rfl, rfl⟩
    obtain ⟨huse, hflag⟩ := hsane i hget hst
    obtain ⟨hlt, -⟩ := (agRGet_eq_some h.lrm).mp hget
    have hi : i ∈ L := (h.live i).mpr ⟨hlt, huse⟩
    have hA : i ∉ A := fun hin => by simp [(h.inActive i hi).mpr hin] at hflag
    have hB : i ∉ B := fun hin => hst ((h.isClosing i hi).mpr hin)
    obtain ⟨ev, hev⟩ := connSetEvent_frame ctl { net.conns i with status := .closing } 0
    have hclose : agNClose ctl net id =
        { net.setConn i { net.conns i with status := .closing, events := ev, next := net.closingList } with
          closingList := some i
          trace := { net.trace with closed := (net.conns i).id :: net.trace.closed } } := by
      simp only [agNClose, hget, ne_eq, hst, not_false_eq_true, if_true, Network.setEvent,
        Network.setConn_self, Network.setConn_setConn, hev, Network.setConn_closingList,
        Network.setConn_trace]
    rw [hclose]
    refine ⟨i :: B, ?_, Network.idOf_setConn rfl, rfl, rfl⟩
    exact h.relink hi _ A (i :: B)
      { net.conns i with status := .closing, events := ev, next := net.closingList } rfl rfl rfl rfl
      (h.active.update hA _) (h.closing.push hB)
      (nodup_middle.mpr (nodup_cons.mpr ⟨by simp [hA, hB], h.nodup⟩))
      (fun j _ => Iff.rfl) (fun j hj => by simp [hj]) (h.inActive i hi) (by simp) (by simp)
      ((h.closed.cons _).trans perm_middle.symm) h.activated

theorem agNDetach_ok (h : Links net A B L) (ctl : Int) {id : ℕ}
    (hsane : ∀ i, agRGet net.lrm id = some i → (net.conns i).status ≠ .closing →
      net.lrm.inUse i ∧ (net.conns i).inActiveList = false) :
    ∃ B', Links (agNDetach ctl net id) A B' L ∧ (agNDetach ctl net id).idOf = net.idOf ∧
      (agNDetach ctl net id).trace.opened = net.trace.opened ∧
      (agNDetach ctl net id).trace.freed = net.trace.freed := by
  unfold agNDetach
  cases hget : agRGet net.lrm id with
  | none => exact ⟨B, h, rfl, rfl, rfl⟩
  | some i =>
    simp only
    split
    · exact ⟨B, h, rfl, rfl, rfl⟩
    · have hfd : Links (net.setConn i { net.conns i with fd := -1 }) A B L :=
        h.setConn ⟨rfl, rfl, rfl, Iff.rfl, fun hb => hb⟩
      have hid : (net.setConn i { net.conns i with fd := -1 }).idOf = net.idOf := Network.idOf_setConn rfl
      obtain ⟨B', hlinks, hids, hopened, hfreed⟩ := agNClose_ok hfd ctl fun j hj hst => by
        obtain rfl : i = j := Option.some_inj.mp (hget.symm.trans hj)
        rw [Network.setConn_self] at hst ⊢
        exact hsane i hget hst
      exact ⟨B', hlinks, hids.trans hid, hopened, hfreed⟩

theorem takeActive_ok {i : ℕ} (h : Links net (i :: A) B L) :
    Links (takeActive net i) A B L ∧ (takeActive net i).idOf = net.idOf := by
  have hi : i ∈ L := h.sub i (by simp)
  have hnodup := h.nodup
  rw [cons_append, nodup_cons, mem_append, not_or] at hnodup
  obtain ⟨hout, hnodup⟩ := hnodup
  have hstatus := h.isClosing i hi
  refine ⟨h.relink hi _ A B { net.conns i with next := none, inActiveList := false } rfl rfl rfl rfl
    (Chain.update h.active.2 hout.1 _) (h.closing.update hout.2 _) hnodup (fun j hj => by simp [hj])
    (fun j _ => Iff.rfl) (by simp [hout.1]) hstatus (fun _ => rfl) h.closed ?_, ?_⟩
  · have := h.activated
    rw [map_cons] at this
    simp only [takeActive, Network.setConn_self]
    exact this.trans perm_middle
  · exact Network.idOf_setConn rfl

/-! ## Freeing -/

/-- The id that takes the place of `id` finds the same slot: the 32-bit counter has not wrapped, or
wrapped without leaving the slot. -/
def IdFits (max id : ℕ) : Prop := newId max id % max = id % max

theorem Links.free (h : Links net A B L) {i : ℕ} (hi : i ∈ L)
    (hA : i ∉ A) (hB : i ∉ B) (hfits : IdFits net.lrm.max (net.idOf i)) :
    Links { net with lrm := agRFree net.lrm (net.idOf i) } A B (L.erase i) ∧
      (agRFree net.lrm (net.idOf i)).max = net.lrm.max := by
  obtain ⟨hlt, huse⟩ := (h.live i).mp hi
  have hid := h.id_eq i hi
  have hslot : newId net.lrm.max (net.lrm.res i).id % net.lrm.max = i := by
    rw [← hid, hfits, hid]
    exact h.lrm.slot i hlt
  obtain ⟨hok, hmax, hres⟩ := agRFree_spec h.lrm hlt huse hslot
  rw [← hid] at hok hmax hres
  refine ⟨⟨hok, h.active, h.closing, h.nodup, h.live_nodup.erase i, fun j => ?_, fun j hj => ?_, ?_, ?_, ?_, ?_,
    h.buf, h.closed, h.activated⟩, hmax⟩
  · change j ∈ L.erase i ↔ j < (agRFree net.lrm (net.idOf i)).max ∧ (agRFree net.lrm (net.idOf i)).inUse j
    rw [h.live_nodup.mem_erase_iff, h.live, agRFree_inUse h.lrm.idle hres, hmax]
    tauto
  · have hne : j ≠ i := by
      rintro rfl
      rcases mem_append.mp hj with hj | hj
      · exact hA hj
      · exact hB hj
    exact (h.live_nodup.mem_erase_iff).mpr ⟨hne, h.sub j hj⟩
  · intro j hj
    obtain ⟨hne, hj⟩ := h.live_nodup.mem_erase_iff.mp hj
    change net.idOf j = ((agRFree net.lrm (net.idOf i)).res j).id
    rw [hres, update_of_ne hne]
    exact h.id_eq j hj
  · exact fun j hj => h.inActive j (mem_of_mem_erase hj)
  · exact fun j hj => h.isClosing j (mem_of_mem_erase hj)
  · exact fun j hj => h.next_none j (mem_of_mem_erase hj)

theorem Links.setConn_idle (h : Links net A B L) {i : ℕ} (hi : i ∉ L) {c : Conn}
    (hc : BufOk c.wbuf) : Links (net.setConn i c) A B L := by
  have hother : ∀ j, j ∈ L → (net.setConn i c).conns j = net.conns j := fun j hj =>
    net.setConn_of_ne i c (by rintro rfl; exact hi hj)
  have hnext : ∀ j ∈ L, (net.setConn i c).nextOf j = net.nextOf j := fun j hj => by
    rw [Network.nextOf, hother j hj]
    rfl
  have hids : ∀ j ∈ L, (net.setConn i c).idOf j = net.idOf j := fun j hj => by
    rw [Network.idOf, hother j hj]
    rfl
  constructor
  case lrm => exact h.lrm
  case active => exact h.active.congr fun j hj => hnext j (h.sub j (mem_append_left B hj))
  case closing => exact h.closing.congr fun j hj => hnext j (h.sub j (mem_append_right A hj))
  case nodup => exact h.nodup
  case live_nodup => exact h.live_nodup
  case live => exact h.live
  case sub => exact h.sub
  case id_eq => exact fun j hj => (hids j hj).trans (h.id_eq j hj)
  case inActive => exact fun j hj => by rw [hother j hj]; exact h.inActive j hj
  case isClosing => exact fun j hj => by rw [hother j hj]; exact h.isClosing j hj
  case next_none => exact fun j hj hout => (hnext j hj).trans (h.next_none j hj hout)
  case buf =>
    intro j
    by_cases hji : j = i
    · rw [hji, Network.setConn_self]
      exact hc
    · rw [Network.setConn_of_ne _ _ _ hji]
      exact h.buf j
  case closed =>
    rw [map_congr_left fun j hj => hids j (h.sub j (mem_append_right A hj))]
    exact h.closed
  case activated =>
    rw [map_congr_left fun j hj => hids j (h.sub j (mem_append_left B hj))]
    exact h.activated

theorem Accounted.setConn_idle {L : List ℕ} (h : Accounted net L) {i : ℕ} (hi : i ∉ L) (c : Conn) :
    Accounted (net.setConn i c) L := by
  have hids : ∀ j ∈ L, (net.setConn i c).idOf j = net.idOf j := fun j hj => by
    rw [Network.idOf, net.setConn_of_ne i c (by rintro rfl; exact hi hj)]
    rfl
  rw [Accounted, map_congr_left hids]
  exact h

theorem doClose_ok {i : ℕ} (h : Links net A (i :: B) L)
    (hacc : Accounted net L) (hfits : IdFits net.lrm.max (net.idOf i)) :
    Links (doClose { net with closingList := (net.conns i).next } i) A B (L.erase i) ∧
      Accounted (doClose { net with closingList := (net.conns i).next } i) (L.erase i) ∧
      (doClose { net with closingList := (net.conns i).next } i).lrm.max = net.lrm.max ∧
      ∀ j, j ≠ i → (doClose { net with closingList := (net.conns i).next } i).conns j = net.conns j := by
  have hi : i ∈ L := h.sub i (by simp)
  have hnodup := nodup_middle.mp h.nodup
  rw [nodup_cons, mem_append, not_or] at hnodup
  obtain ⟨⟨hA, hB⟩, hnodup⟩ := hnodup
  have hflag : (net.conns i).inActiveList ≠ true := fun hf => hA ((h.inActive i hi).mp hf)
  -- The connection leaves the list, its slot is freed, and then its stale link does not matter.
  let off : Network :=
    { net.setConn i { net.conns i with next := none, status := .closed } with
      closingList := (net.conns i).next
      trace := { net.trace with freed := net.idOf i :: net.trace.freed } }
  have hoff : Links off A B L := h.relink hi off A B { net.conns i with next := none, status := .closed }
    rfl rfl rfl rfl (h.active.update hA _) (Chain.update h.closing.2 hB _) hnodup (fun j _ => Iff.rfl)
    (fun j hj => by simp [hj]) (by simp [hA, hflag]) (by simp [hB]) (fun _ => rfl)
    (by have := h.closed; rw [map_cons] at this; exact this.trans perm_middle) h.activated
  have hoffid : off.idOf = net.idOf := Network.idOf_setConn rfl
  have hout : i ∉ L.erase i := h.live_nodup.not_mem_erase
  obtain ⟨hfree, hmax⟩ := hoff.free hi hA hB (by rw [hoffid]; exact hfits)
  have hdo : doClose { net with closingList := (net.conns i).next } i =
      ({ off with lrm := agRFree off.lrm (off.idOf i) } : Network).setConn i
        { net.conns i with status := .closed } := by
    simp only [doClose, off, Network.setConn, update_self, update_idem, Network.idOf]
  rw [hdo]
  refine ⟨hfree.setConn_idle hout (h.buf i), ?_, hmax, fun j hj => ?_⟩
  · refine Accounted.setConn_idle ?_ hout _
    change net.trace.opened.Perm (net.idOf i :: net.trace.freed ++ (L.erase i).map off.idOf)
    rw [hoffid]
    have hL : (L.map net.idOf).Perm (net.idOf i :: (L.erase i).map net.idOf) :=
      (perm_cons_erase hi).map net.idOf
    exact (hacc.trans (hL.append_left _)).trans perm_middle
  · rw [Network.setConn_of_ne _ _ _ hj]
    exact Network.setConn_of_ne _ _ _ hj

theorem cleanLoop_ok (fuel : ℕ) : ∀ (net : Network) (A B L : List ℕ), Links net A B L → Accounted net L →
    (∀ i ∈ B, IdFits net.lrm.max (net.idOf i)) → B.length < fuel →
    ∃ net' L', cleanLoop fuel net = .ok net' ∧ Links net' A [] L' ∧ Accounted net' L' := by
  induction fuel with
  | zero =>
    intro net A B L _ _ _ hfuel
    omega
  | succ fuel ih =>
    intro net A B L h hacc hfits hfuel
    cases B with
    | nil =>
      have hnone : net.closingList = none := h.closing
      exact ⟨net, L, by rw [cleanLoop, hnone], h, hacc⟩
    | cons i B =>
      have hhead : net.closingList = some i := h.closing.1
      obtain ⟨hlinks, hacc', hmax, hother⟩ := doClose_ok h hacc (hfits i (by simp))
      have hnodup := (nodup_append.mp h.nodup).2.1
      rw [cleanLoop, hhead]
      refine ih _ A B (L.erase i) hlinks hacc' (fun j hj => ?_) (by simpa using hfuel)
      have hne : j ≠ i := by
        rintro rfl
        exact (nodup_cons.mp hnodup).1 hj
      rw [hmax, Network.idOf, hother j hne]
      exact hfits j (mem_cons_of_mem i hj)

/-! ## Opening -/

/-- A slot taken for a connection that is not handed out yet. -/
structure Fresh (net : Network) (A B L : List ℕ) (i id : ℕ) : Prop where
  out : i ∉ L
  links : Links net A B (i :: L)
  acc : Accounted net L
  conn : net.conns i = { Conn.zero with id := id }

theorem newConn_cases (h : Links net A B L) (hacc : Accounted net L) :
    newConn net = .ok (none, net) ∨
    ∃ i id lrm' net', agRNew net.lrm = .ok (id, lrm') ∧ id ≠ invalidId ∧ net'.lrm.max = net.lrm.max ∧
      newConn net = .ok (some i, net') ∧ Fresh net' A B L i id := by
  rcases agRNew_cases h.lrm with ⟨hnew, -⟩ | ⟨i, lrm', hlt, huse, hnew, hok, hmax, hres⟩
  · left
    rw [newConn, hnew, ok_bind]
    rfl
  · right
    have hout : i ∉ L := fun hi => huse ((h.live i).mp hi).2
    have hid : (lrm'.res i).id = (net.lrm.res i).id := by rw [hres, update_self]
    have hne : (net.lrm.res i).id ≠ invalidId := Nat.ne_of_lt (h.lrm.valid i hlt)
    have hget : agRGet lrm' (net.lrm.res i).id = some i :=
      (agRGet_eq_some hok).mpr ⟨by rw [hmax]; exact hlt, hid⟩
    let c : Conn := { Conn.zero with id := (net.lrm.res i).id }
    have hset : Links (net.setConn i c) A B L := h.setConn_idle hout trivial
    have hother : ∀ j ∈ L, j ≠ i := fun j hj => by
      rintro rfl
      exact hout hj
    refine ⟨i, (net.lrm.res i).id, lrm', { net.setConn i c with lrm := lrm' }, hnew, hne, hmax, ?_, hout, ?_,
      hacc.setConn_idle hout c, Network.setConn_self net i c⟩
    · rw [newConn, hnew, ok_bind]
      simp only [hne, if_false, hget]
      rfl
    · refine ⟨hok, hset.active, hset.closing, hset.nodup, nodup_cons.mpr ⟨hout, h.live_nodup⟩,
        fun j => ?_, fun j hj => mem_cons_of_mem i (h.sub j hj), fun j hj => ?_, fun j hj => ?_,
        fun j hj => ?_, fun j hj hjout => ?_, hset.buf, hset.closed, hset.activated⟩
      · change j ∈ i :: L ↔ j < lrm'.max ∧ lrm'.inUse j
        rw [mem_cons, h.live, hmax, agRNew_inUse hres]
        constructor
        · rintro (rfl | ⟨hj, hu⟩)
          · exact ⟨hlt, Or.inl rfl⟩
          · exact ⟨hj, Or.inr hu⟩
        · rintro ⟨hj, rfl | hu⟩
          · exact Or.inl rfl
          · exact Or.inr ⟨hj, hu⟩
      · change (net.setConn i c).idOf j = (lrm'.res j).id
        rcases mem_cons.mp hj with rfl | hj
        · rw [hid, Network.idOf, Network.setConn_self]
        · rw [hres, update_of_ne (hother j hj)]
          exact hset.id_eq j hj
      · rcases mem_cons.mp hj with rfl | hj
        · have : j ∉ A := fun hin => hout (h.sub j (mem_append_left B hin))
          simp [c, Conn.zero, this]
        · exact hset.inActive j hj
      · rcases mem_cons.mp hj with rfl | hj
        · have : j ∉ B := fun hin => hout (h.sub j (mem_append_right A hin))
          simp [c, Conn.zero, this]
        · exact hset.isClosing j hj
      · rcases mem_cons.mp hj with rfl | hj
        · simp [Network.nextOf, c, Conn.zero]
        · exact hset.next_none j hj hjout

section Fresh

variable {net : Network} {A B L : List ℕ} {i id : ℕ}

theorem Fresh.giveBack (h : Fresh net A B L i id) (hfits : IdFits net.lrm.max id) :
    let net := net.setConn i { net.conns i with fd := -1 }
    Links { net with lrm := agRFree net.lrm (net.conns i).id } A B L ∧
      Accounted { net with lrm := agRFree net.lrm (net.conns i).id } L := by
  have hA : i ∉ A := fun hin => by
    have := (h.links.inActive i (by simp)).mpr hin
    rw [h.conn] at this
    simp [Conn.zero] at this
  have hB : i ∉ B := fun hin => by
    have := (h.links.isClosing i (by simp)).mpr hin
    rw [h.conn] at this
    simp [Conn.zero] at this
  have hfd : Links (net.setConn i { net.conns i with fd := -1 }) A B (i :: L) :=
    h.links.setConn ⟨rfl, rfl, rfl, Iff.rfl, fun hb => hb⟩
  have hids : (net.setConn i { net.conns i with fd := -1 }).idOf = net.idOf := Network.idOf_setConn rfl
  have hid : net.idOf i = id := by rw [Network.idOf, h.conn]
  have hfree := (hfd.free (by simp) hA hB (by rw [hids, hid]; exact hfits)).1
  rw [erase_cons_head] at hfree
  exact ⟨hfree, h.acc.setConn rfl⟩

theorem Fresh.handOut (h : Fresh net A B L i id) {c : Conn} (hnext : c.next = none)
    (hflag : c.inActiveList = false) (hid : c.id = id) (hstatus : c.status ≠ .closing) (hbuf : c.wbuf = none) :
    Links ((net.setConn i c).opened i) A B (i :: L) ∧ Accounted ((net.setConn i c).opened i) (i :: L) := by
  have hidOf : c.id = net.idOf i := by rw [hid, Network.idOf, h.conn]
  have hsame : SameLinks (net.conns i) c := by
    rw [h.conn]
    refine ⟨hnext, hflag, hid, ⟨fun hc => absurd hc hstatus, fun hc => by cases hc⟩, fun _ => ?_⟩
    rw [hbuf]
    trivial
  have hlinks : Links (net.setConn i c) A B (i :: L) := h.links.setConn hsame
  have hacc : Accounted (net.setConn i c) L := h.acc.setConn hidOf
  refine ⟨?_, ?_⟩
  · exact ⟨hlinks.lrm, hlinks.active, hlinks.closing, hlinks.nodup, hlinks.live_nodup, hlinks.live, hlinks.sub,
      hlinks.id_eq, hlinks.inActive, hlinks.isClosing, hlinks.next_none, hlinks.buf, hlinks.closed,
      hlinks.activated⟩
  · exact (List.Perm.cons _ hacc).trans perm_middle.symm

end Fresh

/-! ## One action -/

/-- What the state before an action must look like for the lists to survive it. -/
def Sane (s : NetState) : NetAction → Prop
  | .close id _ | .detach id _ => ∀ i, agRGet s.net.lrm id = some i → (s.net.conns i).status ≠ .closing →
      s.net.lrm.inUse i ∧ (s.net.conns i).inActiveList = false
  | .setHandler id _ => ∀ i, agRGet s.net.lrm id = some i →
      s.net.lrm.inUse i ∧ ¬ ((s.net.conns i).status = .closing ∧ (s.net.conns i).next = none)
  | .connect .failed _ | .listen none _ => ∀ id lrm', agRNew s.net.lrm = .ok (id, lrm') → id ≠ invalidId →
      IdFits s.net.lrm.max id
  | .clean => ∀ i, i < s.net.lrm.max → s.net.lrm.inUse i → (s.net.conns i).status = .closing →
      IdFits s.net.lrm.max (s.net.conns i).id
  | _ => True

def NetOk (net : Network) : Prop := ∃ A B L, Links net A B L ∧ Accounted net L

theorem NetOk.setEvent {net : Network} (h : NetOk net) (ctl : Int) (i events : ℕ) :
    NetOk (net.setEvent ctl i events) := by
  obtain ⟨A, B, L, hlinks, hacc⟩ := h
  exact ⟨A, B, L, hlinks.setEvent ctl i events, hacc.setEvent ctl i events⟩

theorem NetOk.setConn {net : Network} (h : NetOk net) {i : ℕ} {c : Conn} (hc : SameLinks (net.conns i) c) :
    NetOk (net.setConn i c) := by
  obtain ⟨A, B, L, hlinks, hacc⟩ := h
  exact ⟨A, B, L, hlinks.setConn hc, hacc.setConn hc.id⟩

theorem opening_ok (h : NetOk net) (f : Option ℕ × Network → Except Fault Network)
    (hnone : f (none, net) = .ok net)
    (hsome : ∀ A B L i id lrm' net', agRNew net.lrm = .ok (id, lrm') → id ≠ invalidId →
      net'.lrm.max = net.lrm.max → Fresh net' A B L i id → ∃ net'', f (some i, net') = .ok net'' ∧ NetOk net'') :
    ∃ net', newConn net >>= f = .ok net' ∧ NetOk net' := by
  obtain ⟨A, B, L, hlinks, hacc⟩ := h
  rcases newConn_cases hlinks hacc with hnew | ⟨i, id, lrm', net', hlrm, hid, hmax, hnew, hfresh⟩
  · rw [hnew, ok_bind]
    exact ⟨net, hnone, A, B, L, hlinks, hacc⟩
  · rw [hnew, ok_bind]
    exact hsome A B L i id lrm' net' hlrm hid hmax hfresh

theorem Fresh.netOk {i id : ℕ} (h : Fresh net A B L i id) (fd : ℕ)
    {status : ConnStatus} (hstatus : status ≠ .closing) :
    NetOk ((net.setConn i { net.conns i with fd := fd, status := status }).opened i) := by
  rw [h.conn]
  exact ⟨A, B, i :: L, h.handOut rfl rfl rfl hstatus rfl⟩

theorem agNAttach_ok (h : NetOk net) (fd : ℕ) (ctl : Int) :
    ∃ net', agNAttach fd ctl net = .ok net' ∧ NetOk net' := by
  refine opening_ok h _ rfl fun A B L i id lrm' net' _ _ _ hfresh => ⟨_, rfl, ?_⟩
  exact (hfresh.netOk fd (by simp)).setEvent ctl i epollIn

theorem acceptOnce_ok (h : NetOk net) (fd : ℕ) :
    ∃ net', acceptOnce fd net = .ok net' ∧ NetOk net' := by
  refine opening_ok h _ rfl fun A B L i id lrm' net' _ _ _ hfresh => ⟨_, rfl, ?_⟩
  exact hfresh.netOk fd (by simp)

theorem agNListen_ok (h : NetOk net) (fd : Option ℕ) (ctl : Int)
    (hfits : fd = none → ∀ id lrm', agRNew net.lrm = .ok (id, lrm') → id ≠ invalidId → IdFits net.lrm.max id) :
    ∃ net', agNListen fd ctl net = .ok net' ∧ NetOk net' := by
  refine opening_ok h _ rfl fun A B L i id lrm' net' hlrm hid hmax hfresh => ?_
  cases fd with
  | none => exact ⟨_, rfl, A, B, L, hfresh.giveBack (hmax ▸ hfits rfl id lrm' hlrm hid)⟩
  | some fd => exact ⟨_, rfl, (hfresh.netOk fd (by simp)).setEvent ctl i epollIn⟩

theorem agNConnect_ok (h : NetOk net) (res : ConnectTo) (ctl : Int)
    (hfits : res = .failed → ∀ id lrm', agRNew net.lrm = .ok (id, lrm') → id ≠ invalidId →
      IdFits net.lrm.max id) : ∃ net', agNConnect res ctl net = .ok net' ∧ NetOk net' := by
  refine opening_ok h _ rfl fun A B L i id lrm' net' hlrm hid hmax hfresh => ?_
  cases res with
  | failed => exact ⟨_, rfl, A, B, L, hfresh.giveBack (hmax ▸ hfits rfl id lrm' hlrm hid)⟩
  | pending fd => exact ⟨_, rfl, (hfresh.netOk fd (by simp)).setEvent ctl i epollOut⟩
  | done fd =>
    obtain ⟨hlinks, hacc⟩ := hfresh.handOut
      (c := { net'.conns i with fd := fd, status := .connectedWaitCb }) (by rw [hfresh.conn]; rfl)
      (by rw [hfresh.conn]; rfl) (by rw [hfresh.conn]) (by simp) (by rw [hfresh.conn]; rfl)
    have hi : i ∈ i :: L := mem_cons_self
    obtain ⟨net'', A', hact, hlinks', hids, hopened, hfreed, -⟩ := networkActive_ok hlinks hi
      (by simp [Network.opened])
    refine ⟨net'', hact, A', B, i :: L, hlinks', ?_⟩
    rw [Accounted, hids, hopened, hfreed]
    exact hacc

theorem agNSetHandler_ok (h : NetOk net) (ctl : Int) (id : ℕ)
    (hsane : ∀ i, agRGet net.lrm id = some i →
      net.lrm.inUse i ∧ ¬ ((net.conns i).status = .closing ∧ (net.conns i).next = none)) :
    ∃ net', agNSetHandler ctl net id = .ok net' ∧ NetOk net' := by
  obtain ⟨A, B, L, hlinks, hacc⟩ := h
  cases hget : agRGet net.lrm id with
  | none =>
    rw [agNSetHandler, hget]
    exact ⟨net, rfl, A, B, L, hlinks, hacc⟩
  | some i =>
    obtain ⟨huse, hfree⟩ := hsane i hget
    obtain ⟨hlt, -⟩ := (agRGet_eq_some hlinks.lrm).mp hget
    obtain ⟨net', A', hact, hlinks', hids, hopened, hfreed, -⟩ :=
      networkActive_ok hlinks ((hlinks.live i).mpr ⟨hlt, huse⟩) hfree
    have hok : NetOk net' := ⟨A', B, L, hlinks', by rw [Accounted, hids, hopened, hfreed]; exact hacc⟩
    rw [agNSetHandler, hget]
    simp only [hact, ok_bind, hasBytes_ok (hlinks'.buf i)]
    exact ⟨_, rfl, hok.setEvent ctl i _⟩

theorem finishConnecting_ok (h : NetOk net) (ctl : Int) {i : ℕ}
    (hstatus : (net.conns i).status ≠ .closing) :
    ∃ net', finishConnecting ctl net i = .ok net' ∧ NetOk net' := by
  have hset : NetOk (net.setConn i { net.conns i with status := .connected }) :=
    h.setConn ⟨rfl, rfl, rfl, by simp [hstatus], fun hb => hb⟩
  have hbuf := hset
  obtain ⟨A, B, L, hlinks, -⟩ := hbuf
  rw [finishConnecting]
  simp only [hasBytes_ok (hlinks.buf i), ok_bind]
  exact ⟨_, rfl, hset.setEvent ctl i _⟩

theorem cleanClient_ok (h : NetOk net)
    (hfits : ∀ i, i < net.lrm.max → net.lrm.inUse i → (net.conns i).status = .closing →
      IdFits net.lrm.max (net.conns i).id) :
    ∃ net', cleanClient net = .ok net' ∧ NetOk net' ∧ net'.closingList = none := by
  obtain ⟨A, B, L, hlinks, hacc⟩ := h
  have hlen := hlinks.length_le
  rw [length_append] at hlen
  obtain ⟨net', L', hloop, hlinks', hacc'⟩ := cleanLoop_ok (net.lrm.max + 1) net A B L hlinks hacc
    (fun i hi => by
      have hL := hlinks.sub i (mem_append_right A hi)
      obtain ⟨hlt, huse⟩ := (hlinks.live i).mp hL
      exact hfits i hlt huse ((hlinks.isClosing i hL).mpr hi)) (by omega)
  have hnone : net'.closingList = none := hlinks'.closing
  have hnet : { net' with closingList := none } = net' := by rw [← hnone]
  refine ⟨net', ?_, ⟨A, [], L', hlinks', hacc'⟩, hnone⟩
  rw [cleanClient, hloop, ok_bind, hnet]
  rfl

theorem netStep_ok {s : NetState} {a : NetAction} (h : NetOk s.net) (hsane : Sane s a) :
    ∃ s', netStep s a = .ok s' ∧ NetOk s'.net := by
  cases a with
  | connect res ctl =>
    obtain ⟨net', hnet, hok⟩ := agNConnect_ok h res ctl (by rintro rfl; exact hsane)
    exact ⟨_, by simp only [netStep, hnet, ok_bind, pure_eq_ok]; rfl, hok⟩
  | listen fd ctl =>
    obtain ⟨net', hnet, hok⟩ := agNListen_ok h fd ctl (by rintro rfl; exact hsane)
    exact ⟨_, by simp only [netStep, hnet, ok_bind, pure_eq_ok]; rfl, hok⟩
  | attach fd ctl =>
    obtain ⟨net', hnet, hok⟩ := agNAttach_ok h fd ctl
    exact ⟨_, by simp only [netStep, hnet, ok_bind, pure_eq_ok]; rfl, hok⟩
  | setHandler id ctl =>
    obtain ⟨net', hnet, hok⟩ := agNSetHandler_ok h ctl id hsane
    exact ⟨_, by simp only [netStep, hnet, ok_bind, pure_eq_ok]; rfl, hok⟩
  | close id ctl =>
    obtain ⟨A, B, L, hlinks, hacc⟩ := h
    obtain ⟨B', hlinks', hids, hopened, hfreed⟩ := agNClose_ok hlinks ctl hsane
    exact ⟨_, rfl, A, B', L, hlinks', by rw [Accounted, hids, hopened, hfreed]; exact hacc⟩
  | detach id ctl =>
    obtain ⟨A, B, L, hlinks, hacc⟩ := h
    obtain ⟨B', hlinks', hids, hopened, hfreed⟩ := agNDetach_ok hlinks ctl hsane
    exact ⟨_, rfl, A, B', L, hlinks', by rw [Accounted, hids, hopened, hfreed]; exact hacc⟩
  | io i rbuf wbuf events =>
    refine ⟨_, rfl, h.setConn ⟨rfl, rfl, rfl, Iff.rfl, fun _ => ?_⟩⟩
    cases wbuf with
    | none => trivial
    | some b => exact b.2
  | tick =>
    cases hpc : s.pc with
    | outside =>
      exact ⟨{ s with pc := if s.net.activeList = none then .eventLoop none else .activeLoop none },
        by rw [netStep, hpc], h⟩
    | activeLoop c => exact ⟨s, by rw [netStep, hpc], h⟩
    | eventLoop c => exact ⟨s, by rw [netStep, hpc], h⟩
  | take =>
    cases hpc : s.pc with
    | outside => exact ⟨s, by rw [netStep, hpc], h⟩
    | eventLoop c => exact ⟨s, by rw [netStep, hpc], h⟩
    | activeLoop c =>
      cases hlist : s.net.activeList with
      | none => exact ⟨{ s with pc := .outside }, by simp only [netStep, hpc, hlist], h⟩
      | some i =>
        obtain ⟨A, B, L, hlinks, hacc⟩ := h
        obtain ⟨j, A, rfl, hj, -⟩ := hlinks.active.uncons (by rw [hlist]; simp)
        obtain rfl : i = j := Option.some_inj.mp (hlist.symm.trans hj)
        obtain ⟨hlinks', hids⟩ := takeActive_ok hlinks
        exact ⟨⟨takeActive s.net i, .activeLoop (some i)⟩, by simp only [netStep, hpc, hlist], A, B, L, hlinks',
          by rw [Accounted, hids]; exact hacc⟩
  | event i =>
    cases hpc : s.pc with
    | outside => exact ⟨s, by rw [netStep, hpc], h⟩
    | activeLoop c => exact ⟨s, by rw [netStep, hpc], h⟩
    | eventLoop c => exact ⟨{ s with pc := .eventLoop (some i) }, by rw [netStep, hpc], h⟩
  | accept fd =>
    cases hcur : s.pc.current with
    | none => exact ⟨s, by rw [netStep, hcur], h⟩
    | some i =>
      obtain ⟨net', hnet, hok⟩ := acceptOnce_ok h fd
      exact ⟨_, by simp only [netStep, hcur, hnet, ok_bind, pure_eq_ok]; rfl, hok⟩
  | finish ctl =>
    cases hcur : s.pc.current with
    | none => exact ⟨s, by rw [netStep, hcur], h⟩
    | some i =>
      by_cases hst : (s.net.conns i).status = .connecting ∨
          (s.pc = .activeLoop (some i) ∧ (s.net.conns i).status = .connectedWaitCb)
      · have hne : (s.net.conns i).status ≠ .closing := by
          rcases hst with hst | ⟨-, hst⟩ <;> rw [hst] <;> simp
        obtain ⟨net', hnet, hok⟩ := finishConnecting_ok h ctl hne
        exact ⟨_, by simp only [netStep, hcur, if_pos hst, hnet, ok_bind, pure_eq_ok]; rfl, hok⟩
      · exact ⟨s, by simp only [netStep, hcur, if_neg hst], h⟩
  | clean =>
    cases hpc : s.pc with
    | outside => exact ⟨s, by rw [netStep, hpc], h⟩
    | activeLoop c => exact ⟨s, by rw [netStep, hpc], h⟩
    | eventLoop c =>
      obtain ⟨net', hnet, hok, -⟩ := cleanClient_ok h hsane
      exact ⟨_, by simp only [netStep, hpc, hnet, ok_bind, pure_eq_ok]; rfl, hok⟩
  | stop =>
    cases hpc : s.pc with
    | outside => exact ⟨s, by rw [netStep, hpc], h⟩
    | activeLoop c => exact ⟨s, by rw [netStep, hpc], h⟩
    | eventLoop c => exact ⟨{ s with pc := .outside }, by rw [netStep, hpc], h⟩

/-! ## Runs -/

def SaneRun : NetState → List NetAction → Prop := Along netStep Sane

/-- The lists are finite and disjoint; the connections given to `_agN_close` are those given to `do_close`, once each, and
those on the closing list; the ones handed out and not given to `do_close` are in use; and those put on the active list are
those the active loop has visited and those on the list. -/
def Intact (net : Network) : Prop :=
  ∃ A B L : List ℕ, Chain net.nextOf some none net.activeList A ∧
    Chain net.nextOf some none net.closingList B ∧ (A ++ B).Nodup ∧
    (L.Nodup ∧ ∀ i, i ∈ L ↔ i < net.lrm.max ∧ net.lrm.inUse i) ∧
    net.trace.closed.Perm (net.trace.freed ++ B.map net.idOf) ∧
    net.trace.opened.Perm (net.trace.freed ++ L.map net.idOf) ∧
    net.trace.activated.Perm (net.trace.visited ++ A.map net.idOf)

theorem NetOk.intact (h : NetOk net) : Intact net := by
  obtain ⟨A, B, L, hlinks, hacc⟩ := h
  exact ⟨A, B, L, hlinks.active, hlinks.closing, hlinks.nodup, ⟨hlinks.live_nodup, hlinks.live⟩, hlinks.closed,
    hacc, hlinks.activated⟩

theorem agNNew_ok {max : ℕ} (hpos : 1 ≤ max) (hlt : max < 2 ^ 31) : NetOk (agNNew max) := by
  refine ⟨[], [], [], ?_, List.Perm.refl _⟩
  have hidle : ∀ i, ¬ (i < max ∧ (agRMNew max).inUse i) := fun i hi =>
    (agRMNew_idle max).not_inUse (mem_range.mpr hi.1) hi.2
  refine ⟨agRMNew_ok max hpos hlt, rfl, rfl, by simp, by simp, fun i => ?_, by simp, by simp, by simp, by simp,
    by simp, fun _ => trivial, List.Perm.refl _, List.Perm.refl _⟩
  refine ⟨fun hi => by simp at hi, fun hi => absurd ⟨?_, hi.2⟩ (hidle i)⟩
  rw [← agRMNew_max max]
  exact hi.1

theorem netRun_ok (as : List NetAction) (s : NetState) (h : NetOk s.net) (hsane : SaneRun s as) :
    ∃ s', netRun s as = .ok s' ∧ NetOk s'.net :=
  run_ok (P := fun s : NetState => NetOk s.net) (fun _ _ => netStep_ok) as s h hsane

theorem leave_activeLoop {s s' : NetState} {a : NetAction} {c : Option ℕ} (hpc : s.pc = .activeLoop c)
    (hstep : netStep s a = .ok s') (hout : s'.pc = .outside) : s'.net.activeList = none := by
  have hkeep : s'.pc = s.pc → s'.net.activeList = none := fun he => by
    rw [hout, hpc] at he
    cases he
  have hnet : ∀ x : Except Fault Network, (do return { s with net := ← x }) = .ok s' → s'.pc = s.pc := by
    intro x hx
    obtain ⟨net', -, hx⟩ := bind_ok_iff.mp hx
    cases hx
    rfl
  cases a with
  | connect res ctl => exact hkeep (hnet _ hstep)
  | listen fd ctl => exact hkeep (hnet _ hstep)
  | attach fd ctl => exact hkeep (hnet _ hstep)
  | setHandler id ctl => exact hkeep (hnet _ hstep)
  | close id ctl => cases hstep; exact hkeep rfl
  | detach id ctl => cases hstep; exact hkeep rfl
  | io i rbuf wbuf events => cases hstep; exact hkeep rfl
  | tick => simp only [netStep, hpc] at hstep; cases hstep; exact hkeep rfl
  | event i => simp only [netStep, hpc] at hstep; cases hstep; exact hkeep rfl
  | clean => simp only [netStep, hpc] at hstep; cases hstep; exact hkeep rfl
  | stop => simp only [netStep, hpc] at hstep; cases hstep; exact hkeep rfl
  | take =>
    cases hlist : s.net.activeList with
    | none =>
      simp only [netStep, hpc, hlist] at hstep
      cases hstep
      exact hlist
    | some i =>
      simp only [netStep, hpc, hlist] at hstep
      cases hstep
      cases hout
  | accept fd =>
    cases hcur : s.pc.current with
    | none => simp only [netStep, hcur] at hstep; cases hstep; exact hkeep rfl
    | some i =>
      simp only [netStep, hcur] at hstep
      exact hkeep (hnet _ hstep)
  | finish ctl =>
    cases hcur : s.pc.current with
    | none => simp only [netStep, hcur] at hstep; cases hstep; exact hkeep rfl
    | some i =>
      simp only [netStep, hcur] at hstep
      split at hstep
      · exact hkeep (hnet _ hstep)
      · cases hstep
        exact hkeep rfl

/-- In a run of sane actions the lists stay intact; each `cleanClient` leaves every connection that
was closed given to `do_close`; a tick with connections on the active list enters the active loop, and
when it leaves the loop every connection ever put on the list has been visited. -/
theorem network_lists_intact {max : ℕ} (hpos : 1 ≤ max) (hlt : max < 2 ^ 31) (as : List NetAction)
    (hsane : SaneRun ⟨agNNew max, .outside⟩ as) :
    ∃ s, netRun ⟨agNNew max, .outside⟩ as = .ok s ∧ Intact s.net ∧
      (∀ c s', s.pc = .eventLoop c → Sane s .clean → netStep s .clean = .ok s' →
        Intact s'.net ∧ s'.net.trace.closed.Perm s'.net.trace.freed) ∧
      (s.pc = .outside → s.net.activeList ≠ none → netStep s .tick = .ok { s with pc := .activeLoop none }) ∧
      (∀ c a s', s.pc = .activeLoop c → Sane s a → netStep s a = .ok s' → s'.pc = .outside →
        s'.net.trace.activated.Perm s'.net.trace.visited) := by
  obtain ⟨s, hrun, hok⟩ := netRun_ok as ⟨agNNew max, .outside⟩ (agNNew_ok hpos hlt) hsane
  refine ⟨s, hrun, hok.intact, fun c s' hpc hclean hstep => ?_, fun hpc hlist => ?_,
    fun c a s' hpc hsane' hstep hout => ?_⟩
  · obtain ⟨net', hnet, hok', hnone⟩ := cleanClient_ok hok hclean
    simp only [netStep, hpc, hnet, ok_bind, pure_eq_ok, Except.ok.injEq] at hstep
    subst hstep
    refine ⟨hok'.intact, ?_⟩
    obtain ⟨A, B, L, hlinks, -⟩ := hok'
    have hB : B = [] := (hlinks.closing.eq_nil_iff (by simp)).mp hnone
    have := hlinks.closed
    rwa [hB, map_nil, append_nil] at this
  · simp only [netStep, hpc, hlist, if_false]
  · obtain ⟨s₁, hstep', A, B, L, hlinks, -⟩ := netStep_ok hok hsane'
    obtain rfl : s' = s₁ := ok_unique hstep hstep'
    have hA : A = [] := (hlinks.active.eq_nil_iff (by simp)).mp (leave_activeLoop hpc hstep hout)
    have := hlinks.activated
    rwa [hA, map_nil, append_nil] at this

theorem network_lists_intact_one_connection :
    ∃ s, netRun ⟨agNNew 2, .outside⟩ [.connect (.done 5) 0, .tick, .take, .take, .close 0 0, .tick, .clean] =
      .ok s ∧ Intact s.net := by
  have hsane : SaneRun ⟨agNNew 2, .outside⟩
      [.connect (.done 5) 0, .tick, .take, .take, .close 0 0, .tick, .clean] := by
    refine Along.cons trivial rfl (.cons trivial rfl (.cons trivial rfl (.cons trivial rfl (.cons ?_ rfl
      (.cons trivial rfl (.cons ?_ rfl trivial))))))
    · intro i hi _
      obtain rfl : 0 = i := Option.some_inj.mp hi
      exact ⟨rfl, rfl⟩
    · intro i hi huse _
      have hi' : i < 2 := hi
      interval_cases i
      · rfl
      · cases huse
  obtain ⟨s, hrun, hintact, -⟩ := network_lists_intact (by decide) (by decide) _ hsane
  exact ⟨s, hrun, hintact⟩

/-- Two connections that are made at once are on the active list. Closing the second one before the
next tick puts it on both lists, and the first one is lost: the active loop ends without it. -/
theorem close_of_active_connection :
    (∃ s, netRun ⟨agNNew 2, .outside⟩ [.connect (.done 5) 0, .connect (.done 6) 0, .close 1 0] = .ok s ∧
      ¬ Intact s.net) ∧
    ∃ s, netRun ⟨agNNew 2, .outside⟩ [.connect (.done 5) 0, .connect (.done 6) 0, .close 1 0, .tick, .take,
      .take] = .ok s ∧ s.pc = .outside ∧ s.net.trace.activated = [1, 0] ∧ s.net.trace.visited = [1] := by
  refine ⟨⟨_, rfl, ?_⟩, _, rfl, rfl, rfl, rfl⟩
  rintro ⟨A, B, L, hA, hB, hnodup, -⟩
  cases A with
  | nil => cases hA
  | cons a A =>
    cases B with
    | nil => cases hB
    | cons b B =>
      have ha : a = 1 := (Option.some_inj.mp hA.1).symm
      have hb : b = 1 := (Option.some_inj.mp hB.1).symm
      simp [ha, hb] at hnodup

end CServer.Framework
