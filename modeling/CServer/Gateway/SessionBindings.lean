import CServer.Gateway.Session

/-! # Client records and the connections they are bound to -/
namespace CServer.Gateway.Sessions
open CServer.Lib Function List Nat
open Option hiding mem_map map map_map

/-- The entries of the waiting list are those of its map. -/
structure Indexed (s : Sessions) : Prop where
  queue : ∀ conn a, s.wmap conn = some a ↔ ∃ w ∈ s.wqueue, w.addr = a ∧ w.conn = conn
  nodup : (s.wqueue.map (·.addr)).Nodup
  below : ∀ w ∈ s.wqueue, w.addr < s.malloc

/-- The record `x` need not be bound, and the connection `y` need not wait. -/
structure Linked (x y : Option ℕ) (s : Sessions) : Prop where
  hash : ∀ pid a, s.clientHash pid = some a ↔ ∃ c, s.clients a = some c ∧ c.playerid = pid
  allocated : ∀ a c, s.clients a = some c → a < s.malloc
  bound : ∀ a c, s.clients a = some c → some a ≠ x → s.translating c.conn = some a
  back : ∀ conn a, s.translating conn = some a → ∃ c, s.clients a = some c ∧ c.conn = conn
  pending : ∀ conn sn, s.conns conn = some ⟨false, .authserver sn⟩ → ∃ r, s.rpc sn = some r ∧ r.conn = some conn
  sns : ∀ r ∈ s.rpcs, r.sn ≤ s.sn
  unique : (s.rpcs.map (·.sn)).Nodup
  indexed : s.Indexed
  waits : ∀ conn, s.isAuthenticating conn = true → some conn ≠ y → ∃ a, s.wmap conn = some a
  idle : ∀ conn a, s.wmap conn = some a → s.translating conn = none

variable {s : Sessions} {x y : Option ℕ} {how : Ending} {conn a : ℕ} {c : ClientRecord}

/-! ## Connections -/

theorem of_update_none {β : Type} {f : ℕ → Option β} {i j : ℕ} {v : β} (h : update f i none j = some v) :
    j ≠ i ∧ f j = some v := by
  have hne : j ≠ i := by
    rintro rfl
    rw [update_self] at h
    cases h
  exact ⟨hne, (update_of_ne hne ..).symm.trans h⟩

variable {conn' : ℕ}

theorem agNClose_conns_of_ne (h : conn' ≠ conn) : (s.agNClose how conn).conns conn' = s.conns conn' :=
  update_of_ne h ..

theorem agNClose_live {h : ConnHandler} (hc : (s.agNClose how conn).conns conn' = some ⟨false, h⟩) :
    conn' ≠ conn ∧ s.conns conn' = some ⟨false, h⟩ := by
  have hne : conn' ≠ conn := by
    rintro rfl
    have hself : (s.agNClose how conn').conns conn' = (s.conns conn').map fun c => { c with closing := true } :=
      update_self ..
    obtain ⟨c, -, hc⟩ := map_eq_some_iff.mp (hself.symm.trans hc)
    exact Bool.noConfusion (GatewayConn.mk.inj hc).1
  exact ⟨hne, (agNClose_conns_of_ne hne).symm.trans hc⟩

theorem conns_of_translating (h : s.translating conn = some a) : s.conns conn = some ⟨false, .translating a⟩ := by
  unfold translating at h
  split at h
  · next a' hc =>
    rw [hc, some.inj h]
  · cases h

theorem translating_of_conns (h : s.conns conn = some ⟨false, .translating a⟩) : s.translating conn = some a := by
  unfold translating
  rw [h]

theorem conns_of_isAuthenticating (h : s.isAuthenticating conn = true) :
    s.conns conn = some ⟨false, .authenticating⟩ ∨ ∃ sn, s.conns conn = some ⟨false, .authserver sn⟩ := by
  unfold isAuthenticating at h
  split at h
  · next hc => exact .inl hc
  · next sn hc => exact .inr ⟨sn, hc⟩
  · cases h

theorem live_of_isAuthenticating (h : s.isAuthenticating conn = true) : ∃ h', s.conns conn = some ⟨false, h'⟩ := by
  obtain hc | ⟨sn, hc⟩ := conns_of_isAuthenticating h
  · exact ⟨_, hc⟩
  · exact ⟨_, hc⟩

theorem isAuthenticating_of_conns (h : s.conns conn = some ⟨false, .authenticating⟩ ∨
    ∃ sn, s.conns conn = some ⟨false, .authserver sn⟩) : s.isAuthenticating conn = true := by
  unfold isAuthenticating
  obtain hc | ⟨sn, hc⟩ := h <;> rw [hc]

theorem translating_congr {s' : Sessions} (h : s'.conns conn = s.conns conn) :
    s'.translating conn = s.translating conn := by
  unfold translating
  rw [h]

theorem isAuthenticating_congr {s' : Sessions} (h : s'.conns conn = s.conns conn) :
    s'.isAuthenticating conn = s.isAuthenticating conn := by
  unfold isAuthenticating
  rw [h]

theorem translating_of_isAuthenticating (h : s.isAuthenticating conn = true) : s.translating conn = none := by
  unfold translating
  obtain hc | ⟨sn, hc⟩ := conns_of_isAuthenticating h <;> rw [hc]

theorem translating_agNClose (h : (s.agNClose how conn).translating conn' = some a) :
    conn' ≠ conn ∧ s.translating conn' = some a := by
  obtain ⟨hne, hc⟩ := agNClose_live (conns_of_translating h)
  exact ⟨hne, translating_of_conns hc⟩

theorem agNClose_translating_none (h : s.translating conn' = none) :
    (s.agNClose how conn).translating conn' = none := by
  refine eq_none_iff_forall_ne_some.mpr fun a ht => ?_
  rw [(translating_agNClose ht).2] at h
  cases h

theorem isAuthenticating_agNClose (h : (s.agNClose how conn).isAuthenticating conn' = true) :
    conn' ≠ conn ∧ s.isAuthenticating conn' = true := by
  obtain ⟨h', hc⟩ := live_of_isAuthenticating h
  have hne := (agNClose_live hc).1
  exact ⟨hne, (isAuthenticating_congr (agNClose_conns_of_ne hne)) ▸ h⟩

/-! ## Records -/

theorem Linked.conn_ne (h : Linked x y s) (hc : s.clients a = some c) (hx : some a ≠ x)
    (hidle : s.translating conn = none) : c.conn ≠ conn := by
  rintro rfl
  rw [h.bound a c hc hx] at hidle
  cases hidle

theorem Linked.conn_eq (h : Linked x y s) (hc : s.clients a = some c) (ht : s.translating conn = some a) :
    conn = c.conn := by
  obtain ⟨d, hd, rfl⟩ := h.back conn a ht
  rw [some_unique hc hd]

/-! ## Steps on the parts -/

theorem agNClose_linked (h : Linked x y s) (hown : ∀ a c, s.clients a = some c → c.conn = conn → some a = x) :
    Linked x y (s.agNClose how conn) where
  hash := h.hash
  allocated := h.allocated
  bound := by
    intro a c hc hx
    rw [translating_congr (agNClose_conns_of_ne fun hconn => hx (hown a c hc hconn))]
    exact h.bound a c hc hx
  back := fun conn' a ht => h.back conn' a (translating_agNClose ht).2
  pending := fun conn' sn hc => h.pending conn' sn (agNClose_live hc).2
  sns := h.sns
  unique := h.unique
  indexed := ⟨h.indexed.queue, h.indexed.nodup, h.indexed.below⟩
  waits := fun conn' ha hy => h.waits conn' (isAuthenticating_agNClose ha).2 hy
  idle := fun conn' a hw => agNClose_translating_none (h.idle conn' a hw)

theorem agNClose_idle (h : Linked none y s) (hidle : s.translating conn = none) : Linked none y (s.agNClose how conn) :=
  agNClose_linked h fun a _ hc hconn => absurd hconn (h.conn_ne hc (some_ne_none a) hidle)

variable {w : WaitingClient}

theorem dropWaiting_conns_of_ne (rest : List WaitingClient) (h : conn ≠ w.conn) :
    (s.dropWaiting w rest).conns conn = s.conns conn := update_of_ne h ..

variable {rest : List WaitingClient}

theorem wmap_head (h : s.Indexed) (hq : s.wqueue = w :: rest) :
    s.wmap w.conn = some w.addr :=
  (h.queue _ _).mpr ⟨w, by rw [hq]; exact mem_cons_self, rfl, rfl⟩

theorem dropWaiting_indexed (h : s.Indexed)
    (hq : s.wqueue = w :: rest) : (s.dropWaiting w rest).Indexed where
  queue := by
    intro conn a
    show update s.wmap w.conn none conn = some a ↔ ∃ w' ∈ rest, w'.addr = a ∧ w'.conn = conn
    by_cases hconn : conn = w.conn
    · rw [hconn, update_self]
      refine iff_of_false (fun hn => nomatch hn) fun ⟨w', hw', ha, hc⟩ => ?_
      have hmap : s.wmap w.conn = some a := (h.queue _ _).mpr ⟨w', by rw [hq]; exact mem_cons_of_mem _ hw', ha, hc⟩
      have haddr : w'.addr = w.addr := ha.trans (some_unique hmap (wmap_head h hq))
      have hnodup := h.nodup
      rw [hq, map_cons, nodup_cons] at hnodup
      exact hnodup.1 (mem_map.mpr ⟨w', hw', haddr⟩)
    · rw [update_of_ne hconn, h.queue, hq]
      constructor
      · intro ⟨w', hw', ha, hc⟩
        obtain rfl | hw' := mem_cons.mp hw'
        · exact absurd hc.symm hconn
        · exact ⟨w', hw', ha, hc⟩
      · intro ⟨w', hw', ha, hc⟩
        exact ⟨w', mem_cons_of_mem _ hw', ha, hc⟩
  nodup := by
    have hnodup := h.nodup
    rw [hq, map_cons, nodup_cons] at hnodup
    exact hnodup.2
  below := fun w' hw' => h.below w' (by rw [hq]; exact mem_cons_of_mem _ hw')

theorem dropWaiting_linked (h : Linked x y s)
    (hq : s.wqueue = w :: rest) : Linked x y (s.dropWaiting w rest) where
  hash := h.hash
  allocated := h.allocated
  bound := by
    intro a c hc hx
    have hne := h.conn_ne hc hx (h.idle _ _ (wmap_head h.indexed hq))
    rw [translating_congr (dropWaiting_conns_of_ne rest hne)]
    exact h.bound a c hc hx
  back := fun conn a ht => h.back conn a (translating_agNClose ht).2
  pending := fun conn sn hc => h.pending conn sn (agNClose_live hc).2
  sns := h.sns
  unique := h.unique
  indexed := dropWaiting_indexed h.indexed hq
  waits := by
    intro conn ha hy
    obtain ⟨hne, ha⟩ := isAuthenticating_agNClose ha
    obtain ⟨a, hw⟩ := h.waits conn ha hy
    exact ⟨a, (update_of_ne hne ..).trans hw⟩
  idle := fun conn a hw => agNClose_translating_none (h.idle conn a (of_update_none hw).2)

/-! ## The waiting list -/

theorem cleanLoop_linked (now : ℕ) (ws : List WaitingClient) :
    ∀ {s : Sessions}, Linked x y s → s.wqueue = ws → Linked x y (cleanLoop now ws s) := by
  induction ws with
  | nil => exact fun h _ => h
  | cons w rest ih =>
    intro s h hq
    rw [cleanLoop]
    by_cases he : expired now w = true
    · rw [if_pos he]
      exact ih (dropWaiting_linked h hq) rfl
    · rw [if_neg he]
      exact h

structure Swept (s s' : Sessions) : Prop where
  clients : s'.clients = s.clients
  clientHash : s'.clientHash = s.clientHash
  clientCount : s'.clientCount = s.clientCount
  rpcs : s'.rpcs = s.rpcs
  malloc : s'.malloc = s.malloc
  live : ∀ conn h, s'.conns conn = some ⟨false, h⟩ → s.conns conn = some ⟨false, h⟩
  waiting : ∀ conn a, s'.wmap conn = some a → s.wmap conn = some a ∧ s'.conns conn = s.conns conn

theorem Swept.refl (s : Sessions) : Swept s s :=
  ⟨rfl, rfl, rfl, rfl, rfl, fun _ _ h => h, fun _ _ h => ⟨h, rfl⟩⟩

theorem Swept.trans {s₁ s₂ s₃ : Sessions} (h : Swept s₁ s₂) (h' : Swept s₂ s₃) : Swept s₁ s₃ where
  clients := h'.clients.trans h.clients
  clientHash := h'.clientHash.trans h.clientHash
  clientCount := h'.clientCount.trans h.clientCount
  rpcs := h'.rpcs.trans h.rpcs
  malloc := h'.malloc.trans h.malloc
  live := fun conn hd hc => h.live conn hd (h'.live conn hd hc)
  waiting := by
    intro conn a hw
    obtain ⟨hw', hc'⟩ := h'.waiting conn a hw
    obtain ⟨hw, hc⟩ := h.waiting conn a hw'
    exact ⟨hw, hc'.trans hc⟩

theorem dropWaiting_swept (w : WaitingClient) (rest : List WaitingClient) (s : Sessions) :
    Swept s (s.dropWaiting w rest) where
  clients := rfl
  clientHash := rfl
  clientCount := rfl
  rpcs := rfl
  malloc := rfl
  live := fun _ _ hc => (agNClose_live hc).2
  waiting := by
    intro conn a hw
    obtain ⟨hne, hw⟩ := of_update_none hw
    exact ⟨hw, dropWaiting_conns_of_ne rest hne⟩

theorem cleanLoop_swept (now : ℕ) (ws : List WaitingClient) : ∀ s, Swept s (cleanLoop now ws s) := by
  induction ws with
  | nil => exact Swept.refl
  | cons w rest ih =>
    intro s
    rw [cleanLoop]
    by_cases he : expired now w = true
    · rw [if_pos he]
      exact (dropWaiting_swept w rest s).trans (ih _)
    · rw [if_neg he]
      exact Swept.refl s

def Expires (now conn : ℕ) (s : Sessions) : Prop := ∃ w ∈ s.wqueue.takeWhile (expired now), w.conn = conn

instance (now conn : ℕ) (s : Sessions) : Decidable (s.Expires now conn) :=
  inferInstanceAs (Decidable (∃ w ∈ s.wqueue.takeWhile (expired now), w.conn = conn))

theorem cleanLoop_conns {now conn : ℕ} (ws : List WaitingClient) :
    ∀ s, (∀ w ∈ ws.takeWhile (expired now), w.conn ≠ conn) → (cleanLoop now ws s).conns conn = s.conns conn := by
  induction ws with
  | nil => exact fun _ _ => rfl
  | cons w rest ih =>
    intro s h
    rw [cleanLoop]
    by_cases he : expired now w = true
    · rw [takeWhile_cons, if_pos he] at h
      rw [if_pos he, ih _ fun w' hw' => h w' (mem_cons_of_mem _ hw')]
      exact dropWaiting_conns_of_ne rest (h w mem_cons_self).symm
    · rw [if_neg he]

variable {now : ℕ}

theorem clean_conns (h : ¬ s.Expires now conn) : (s.cleanWaitingClient now).conns conn = s.conns conn :=
  cleanLoop_conns s.wqueue s fun w hw hconn => h ⟨w, hw, hconn⟩

theorem not_expires (h : s.Indexed) (hw : s.wmap conn = none) : ¬ s.Expires now conn := by
  intro ⟨w, hw', hconn⟩
  have hmem : w ∈ s.wqueue := (List.takeWhile_prefix _).subset hw'
  have hmap : s.wmap conn = some w.addr := (h.queue _ _).mpr ⟨w, hmem, rfl, hconn⟩
  rw [hw] at hmap
  cases hmap

theorem startAuth_conns_of_ne {now conn' : ℕ} (h : conn' ≠ conn) :
    (s.startAuth how now conn).conns conn' = (s.cleanWaitingClient now).conns conn' :=
  update_of_ne h ..

theorem startAuth_conns_self :
    (s.startAuth how now conn).conns conn =
      ((s.cleanWaitingClient now).conns conn).map fun c => { c with handler := .authenticating } :=
  update_self ..

theorem startAuth_handler {h : ConnHandler} (hc : (s.startAuth how now conn).conns conn = some ⟨false, h⟩) :
    h = .authenticating := by
  rw [startAuth_conns_self] at hc
  obtain ⟨c, -, hc⟩ := map_eq_some_iff.mp hc
  exact (GatewayConn.mk.inj hc).2.symm

theorem startAuth_not_translating : (s.startAuth how now conn).translating conn = none :=
  eq_none_iff_forall_ne_some.mpr fun _ ht => nomatch startAuth_handler (conns_of_translating ht)

theorem newWaiting_indexed (h : s.Indexed) (hw : s.wmap conn = none) :
    Indexed { s with
      wqueue := s.wqueue ++ [⟨s.malloc, conn, now⟩]
      wmap := update s.wmap conn (some s.malloc)
      malloc := s.malloc + 1 } where
  queue := by
    intro conn' a
    show update s.wmap conn (some s.malloc) conn' = some a ↔
      ∃ w ∈ s.wqueue ++ [⟨s.malloc, conn, now⟩], w.addr = a ∧ w.conn = conn'
    simp only [mem_append, mem_singleton, or_and_right, exists_or, exists_eq_left]
    by_cases hconn : conn' = conn
    · subst hconn
      rw [update_self, ← h.queue, hw]
      constructor
      · intro ha
        exact .inr ⟨some.inj ha, rfl⟩
      · rintro (ha | ⟨ha, -⟩)
        · cases ha
        · rw [ha]
    · rw [update_of_ne hconn, h.queue]
      constructor
      · exact .inl
      · rintro (ha | ⟨-, hc⟩)
        · exact ha
        · exact absurd hc.symm hconn
  nodup := by
    rw [map_append, map_singleton]
    refine nodup_append.mpr ⟨h.nodup, nodup_singleton _, ?_⟩
    intro a ha b hb hab
    obtain ⟨w, hw', rfl⟩ := mem_map.mp ha
    rw [mem_singleton.mp hb] at hab
    exact Nat.ne_of_lt (h.below w hw') hab
  below := by
    intro w hw'
    show w.addr < s.malloc + 1
    obtain hw' | hw' := mem_append.mp hw'
    · exact lt_succ_of_lt (h.below w hw')
    · rw [mem_singleton.mp hw']
      exact lt_succ_self _

theorem startAuth_linked (h : Linked x y s) (hw : s.wmap conn = none)
    (hown : ∀ a c, s.clients a = some c → c.conn = conn → some a = x) : Linked x y (s.startAuth how now conn) := by
  have hs := cleanLoop_swept now s.wqueue s
  have h' := cleanLoop_linked now s.wqueue h rfl
  have hw' : (s.cleanWaitingClient now).wmap conn = none := by
    refine eq_none_iff_forall_ne_some.mpr fun a hc => ?_
    rw [(hs.waiting conn a hc).1] at hw
    cases hw
  have hwmap : ∀ conn', conn' ≠ conn → (s.startAuth how now conn).wmap conn' = (s.cleanWaitingClient now).wmap conn' :=
    fun conn' hne => update_of_ne hne ..
  have htrans : ∀ conn', conn' ≠ conn →
      (s.startAuth how now conn).translating conn' = (s.cleanWaitingClient now).translating conn' :=
    fun conn' hne => translating_congr (startAuth_conns_of_ne hne)
  refine ⟨h'.hash, ?_, ?_, ?_, ?_, h'.sns, h'.unique, ?_, ?_, ?_⟩
  · intro a c hc
    exact lt_succ_of_lt (h'.allocated a c hc)
  · intro a c hc hx
    have hne : c.conn ≠ conn := fun hconn => hx (hown a c (hs.clients ▸ hc) hconn)
    rw [htrans _ hne]
    exact h'.bound a c hc hx
  · intro conn' a ht
    have hne : conn' ≠ conn := by
      rintro rfl
      rw [startAuth_not_translating] at ht
      cases ht
    rw [htrans _ hne] at ht
    exact h'.back conn' a ht
  · intro conn' sn hc
    have hne : conn' ≠ conn := by
      rintro rfl
      cases startAuth_handler hc
    rw [startAuth_conns_of_ne hne] at hc
    exact h'.pending conn' sn hc
  · have hi := @newWaiting_indexed _ conn now h'.indexed hw'
    exact ⟨hi.queue, hi.nodup, hi.below⟩
  · intro conn' ha hy
    by_cases hne : conn' = conn
    · rw [hne]
      exact ⟨_, update_self ..⟩
    · rw [hwmap _ hne]
      rw [isAuthenticating_congr (startAuth_conns_of_ne hne)] at ha
      exact h'.waits conn' ha hy
  · intro conn' a hwm
    by_cases hne : conn' = conn
    · rw [hne]
      exact startAuth_not_translating
    · rw [htrans _ hne]
      rw [hwmap _ hne] at hwm
      exact h'.idle conn' a hwm

/-! ## The client table -/

/-- A record is written anew: for the same player, and for the same connection unless it is the exempt one. -/
theorem update_linked {c c' : ClientRecord} (h : Linked x y s) (hc : s.clients a = some c)
    (hpid : c'.playerid = c.playerid)
    (hconn : c'.conn = c.conn ∨ some a = x ∧ ∀ conn, s.translating conn ≠ some a) :
    Linked x y { s with clients := update s.clients a (some c') } := by
  have hof : ∀ b, b ≠ a → update s.clients a (some c') b = s.clients b := fun b hb => update_of_ne hb ..
  refine ⟨?_, ?_, ?_, ?_, h.pending, h.sns, h.unique, ⟨h.indexed.queue, h.indexed.nodup, h.indexed.below⟩, h.waits, h.idle⟩
  · intro pid b
    show s.clientHash pid = some b ↔ ∃ d, update s.clients a (some c') b = some d ∧ d.playerid = pid
    rw [h.hash]
    by_cases hb : b = a
    · rw [hb, hc, update_self]
      constructor
      · intro ⟨d, hd, hp⟩
        exact ⟨c', rfl, by rw [hpid, some.inj hd, hp]⟩
      · intro ⟨d, hd, hp⟩
        exact ⟨c, rfl, by rw [← hpid, some.inj hd, hp]⟩
    · rw [hof b hb]
  · intro b d hd
    by_cases hb : b = a
    · rw [hb]
      exact h.allocated a c hc
    · exact h.allocated b d ((hof b hb).symm.trans hd)
  · intro b d hd hx
    by_cases hb : b = a
    · subst hb
      obtain hconn | ⟨hx', -⟩ := hconn
      · have hd : update s.clients b (some c') b = some d := hd
        rw [update_self] at hd
        rw [← some.inj hd, hconn]
        exact h.bound b c hc hx
      · exact absurd hx' hx
    · exact h.bound b d ((hof b hb).symm.trans hd) hx
  · intro conn b ht
    by_cases hb : b = a
    · subst hb
      obtain hconn | ⟨-, hidle⟩ := hconn
      · exact ⟨c', update_self .., hconn.trans (h.conn_eq hc ht).symm⟩
      · exact absurd ht (hidle conn)
    · obtain ⟨d, hd, hdc⟩ := h.back conn b ht
      exact ⟨d, (hof b hb).trans hd, hdc⟩

theorem logoutSent_linked (h : Linked x y s) (hc : s.clients a = some c) : Linked x y (s.logoutSent a c) :=
  update_linked h hc rfl (.inl rfl)

theorem clientFree_linked {c' : ClientRecord} (h : Linked (some a) y s) (hc : s.clients a = some c')
    (hpid : c'.playerid = c.playerid) (hidle : ∀ conn, s.translating conn ≠ some a) :
    Linked none y (s.clientFree a c) where
  hash := by
    intro pid b
    show update s.clientHash c.playerid none pid = some b ↔
      ∃ d, update s.clients a none b = some d ∧ d.playerid = pid
    by_cases hb : b = a
    · rw [hb, update_self]
      refine iff_of_false (fun hh => ?_) fun ⟨d, hd, _⟩ => nomatch hd
      obtain ⟨hp, hh⟩ := of_update_none hh
      obtain ⟨d, hd, hdp⟩ := (h.hash _ _).mp hh
      rw [← some_unique hc hd] at hdp
      exact hp (hdp.symm.trans hpid)
    · rw [update_of_ne hb]
      by_cases hp : pid = c.playerid
      · rw [hp, update_self, ← h.hash]
        refine iff_of_false (fun hn => nomatch hn) fun hh => ?_
        have ha : s.clientHash c.playerid = some a := (h.hash _ _).mpr ⟨c', hc, hpid⟩
        exact hb (some_unique hh ha)
      · rw [update_of_ne hp]
        exact h.hash pid b
  allocated := fun b d hd => h.allocated b d (of_update_none hd).2
  bound := by
    intro b d hd _
    obtain ⟨hb, hd⟩ := of_update_none hd
    exact h.bound b d hd fun hx => hb (some.inj hx)
  back := by
    intro conn b ht
    have hb : b ≠ a := by
      rintro rfl
      exact hidle conn ht
    obtain ⟨d, hd, hdc⟩ := h.back conn b ht
    exact ⟨d, (update_of_ne hb ..).trans hd, hdc⟩
  pending := h.pending
  sns := h.sns
  unique := h.unique
  indexed := ⟨h.indexed.queue, h.indexed.nodup, h.indexed.below⟩
  waits := h.waits
  idle := h.idle

theorem Linked.exempt (h : Linked none y s) (x : Option ℕ) : Linked x y s :=
  { h with bound := fun a c hc _ => h.bound a c hc (some_ne_none a) }

theorem Linked.distinct (h : Linked none y s) {a b : ℕ} {c d : ClientRecord} (hc : s.clients a = some c)
    (hd : s.clients b = some d) (hconn : d.conn = c.conn) : b = a := by
  have ha := h.bound a c hc (some_ne_none a)
  have hb := h.bound b d hd (some_ne_none b)
  rw [hconn, ha] at hb
  exact (some.inj hb).symm

/-! ## Messages of a translating connection -/

def loggedOut (now a : ℕ) (c : ClientRecord) (world : ToWorld) (s : Sessions) : Sessions :=
  ((if world = .sent then s.logoutSent a c else s).startAuth .closed now c.conn).clientFree a c

theorem client_ok (hc : s.clients a = some c) : s.client a = .ok c := by
  unfold client
  rw [hc]

theorem sendLogout_eq {world : ToWorld} (hc : s.clients a = some c) (hworld : world ≠ .noWorld) :
    s.sendLogout now world a = .ok (s.loggedOut now a c world) := by
  unfold sendLogout
  rw [client_ok hc, ok_bind]
  cases world with
  | noWorld => exact absurd rfl hworld
  | sent => rfl
  | lost => rfl

theorem Linked.waitless (h : Linked none y s) (hc : s.clients a = some c) : s.wmap c.conn = none :=
  eq_none_iff_forall_ne_some.mpr fun _ hw => h.conn_ne hc (some_ne_none a) (h.idle _ _ hw) rfl

theorem restart_linked (h : Linked none y s) (hc : s.clients a = some c) :
    Linked (some a) y (s.startAuth how now c.conn) ∧ ∀ conn, (s.startAuth how now c.conn).translating conn ≠ some a := by
  have hs := cleanLoop_swept now s.wqueue s
  refine ⟨startAuth_linked (h.exempt _) (h.waitless hc) fun b d hd hconn => by rw [h.distinct hc hd hconn], ?_⟩
  intro conn ht
  by_cases hne : conn = c.conn
  · rw [hne, startAuth_not_translating] at ht
    cases ht
  · rw [translating_congr (startAuth_conns_of_ne hne)] at ht
    exact hne (h.conn_eq hc (translating_of_conns (hs.live conn _ (conns_of_translating ht))))

theorem startAuth_clients : (s.startAuth how now conn).clients = s.clients :=
  (cleanLoop_swept now s.wqueue s).clients

theorem loggedOut_linked (world : ToWorld) (h : Linked none y s) (hc : s.clients a = some c) :
    Linked none y (s.loggedOut now a c world) ∧ (s.loggedOut now a c world).translating c.conn = none := by
  unfold loggedOut
  by_cases hworld : world = .sent
  · rw [if_pos hworld]
    have hsent : (s.logoutSent a c).clients a = some { c with logouts := c.logouts + 1 } := update_self ..
    obtain ⟨h', hidle⟩ := @restart_linked _ y .closed a _ now (logoutSent_linked h hc) hsent
    have hfree := (congrFun (@startAuth_clients (s.logoutSent a c) .closed c.conn now) a).trans hsent
    exact ⟨clientFree_linked h' hfree rfl hidle, startAuth_not_translating⟩
  · rw [if_neg hworld]
    obtain ⟨h', hidle⟩ := @restart_linked _ y .closed a _ now h hc
    have hfree := (congrFun (@startAuth_clients s .closed c.conn now) a).trans hc
    exact ⟨clientFree_linked h' hfree rfl hidle, startAuth_not_translating⟩

inductive Served (now a : ℕ) (c : ClientRecord) (s : Sessions) : ClientMessage → Sessions → Prop
  | stays {m : ClientMessage} (hm : ∀ world, m ≠ .unknownFlag world) : Served now a c s m s
  | logout : Served now a c s (.toWorld true .sent) (s.logoutSent a c)
  | malformed : Served now a c s .malformed ((s.agNClose .closed c.conn).clientFree a c)
  | unknownFlag (world : ToWorld) :
    Served now a c s (.unknownFlag world) ((s.loggedOut now a c world).agNClose .closed c.conn)

theorem translateMessage_served {m : ClientMessage} (hc : s.clients a = some c) (hconn : c.conn = conn)
    (hm : m.findsNoWorld = false) : ∃ s', s.translateMessage now conn a m = .ok s' ∧ Served now a c s m s' := by
  unfold translateMessage
  rw [client_ok hc, ok_bind, assert_of (decide_eq_true hconn), ok_bind, ← hconn]
  cases m with
  | incomplete => exact ⟨_, rfl, .stays fun _ h => nomatch h⟩
  | malformed => exact ⟨_, rfl, .malformed⟩
  | unknownFlag world =>
    have hworld : world ≠ .noWorld := by
      rintro rfl
      cases hm
    simp only [sendLogout_eq hc hworld, ok_bind]
    exact ⟨_, rfl, .unknownFlag world⟩
  | toBackend => exact ⟨_, rfl, .stays fun _ h => nomatch h⟩
  | toWorld logout world =>
    cases world with
    | noWorld => cases hm
    | lost => exact ⟨_, rfl, .stays fun _ h => nomatch h⟩
    | sent =>
      cases logout with
      | false => exact ⟨_, rfl, .stays fun _ h => nomatch h⟩
      | true => exact ⟨_, rfl, .logout⟩

theorem closeFree_linked (h : Linked none y s) (hc : s.clients a = some c) :
    Linked none y ((s.agNClose how c.conn).clientFree a c) := by
  have h' := @agNClose_linked s (some a) y how c.conn (h.exempt _) fun b d hd hconn => by
    rw [h.distinct hc hd hconn]
  refine clientFree_linked h' hc rfl fun conn ht => ?_
  obtain ⟨hne, ht⟩ := translating_agNClose ht
  exact hne (h.conn_eq hc ht)

theorem Served.linked {m : ClientMessage} {s' : Sessions} (h : Linked none y s) (hc : s.clients a = some c)
    (hs : Served now a c s m s') : Linked none y s' := by
  cases hs with
  | stays => exact h
  | logout => exact logoutSent_linked h hc
  | malformed => exact closeFree_linked h hc
  | unknownFlag world =>
    obtain ⟨h', hidle⟩ := @loggedOut_linked _ y _ _ now world h hc
    exact agNClose_idle h' hidle

/-! ## Requests to the authentication server -/

def Calm (s s' : Sessions) : Prop :=
  s'.rpcs = s.rpcs ∧ ∀ conn sn, s'.conns conn = some ⟨false, .authserver sn⟩ → s.conns conn = some ⟨false, .authserver sn⟩

theorem Calm.refl (s : Sessions) : Calm s s := ⟨rfl, fun _ _ h => h⟩

theorem Calm.trans {s₁ s₂ s₃ : Sessions} (h : Calm s₁ s₂) (h' : Calm s₂ s₃) : Calm s₁ s₃ :=
  ⟨h'.1.trans h.1, fun conn sn hc => h.2 conn sn (h'.2 conn sn hc)⟩

theorem agNClose_calm (how : Ending) (conn : ℕ) (s : Sessions) : Calm s (s.agNClose how conn) :=
  ⟨rfl, fun _ _ hc => (agNClose_live hc).2⟩

theorem startAuth_calm (how : Ending) (now conn : ℕ) (s : Sessions) : Calm s (s.startAuth how now conn) := by
  have hs := cleanLoop_swept now s.wqueue s
  refine ⟨hs.rpcs, fun conn' sn hc => ?_⟩
  have hne : conn' ≠ conn := by
    rintro rfl
    cases startAuth_handler hc
  rw [startAuth_conns_of_ne hne] at hc
  exact hs.live conn' _ hc

theorem Served.calm {m : ClientMessage} {s' : Sessions} (hs : Served now a c s m s') : Calm s s' := by
  cases hs with
  | stays => exact Calm.refl s
  | logout => exact Calm.refl s
  | malformed => exact agNClose_calm .closed c.conn s
  | unknownFlag world =>
    refine Calm.trans ?_ (agNClose_calm .closed c.conn _)
    unfold loggedOut
    by_cases hworld : world = .sent
    · rw [if_pos hworld]
      exact startAuth_calm .closed now c.conn (s.logoutSent a c)
    · rw [if_neg hworld]
      exact startAuth_calm .closed now c.conn s

theorem rpc_removeRpc {sn sn' : ℕ} (h : sn' ≠ sn) : (s.removeRpc sn).rpc sn' = s.rpc sn' := by
  unfold rpc removeRpc
  rw [List.find?_filter]
  congr 1
  funext r
  by_cases hr : r.sn = sn' <;> simp [hr, h]

theorem removeRpc_linked {sn : ℕ} (h : Linked x y s) (hno : ∀ conn, s.conns conn ≠ some ⟨false, .authserver sn⟩) :
    Linked x y (s.removeRpc sn) := by
  refine ⟨h.hash, h.allocated, h.bound, h.back, ?_, ?_, ?_, ⟨h.indexed.queue, h.indexed.nodup, h.indexed.below⟩,
    h.waits, h.idle⟩
  · intro conn sn' hc
    have hne : sn' ≠ sn := by
      rintro rfl
      exact hno conn hc
    rw [rpc_removeRpc hne]
    exact h.pending conn sn' hc
  · intro r hr
    exact h.sns r (mem_filter.mp hr).1
  · exact h.unique.sublist (filter_sublist.map _)

theorem failAndClose_linked {sn : ℕ} {r : Rpc} (h : Linked none y s) (hr : s.rpc sn = some r)
    (hidle : ∀ conn, r.conn = some conn → s.translating conn = none) :
    Linked none y ((s.failAndClose r.conn).removeRpc sn) := by
  have hown : ∀ conn, s.conns conn = some ⟨false, .authserver sn⟩ → r.conn = some conn := by
    intro conn hc
    obtain ⟨r', hr', hconn⟩ := h.pending conn sn hc
    rw [hr] at hr'
    rw [some.inj hr', hconn]
  cases hconn : r.conn with
  | none =>
    refine removeRpc_linked h fun conn hc => ?_
    have ho := hown conn hc
    rw [hconn] at ho
    cases ho
  | some conn =>
    refine removeRpc_linked (agNClose_idle h (hidle conn hconn)) fun conn' hc => ?_
    obtain ⟨hne, hc⟩ := agNClose_live hc
    exact hne (some_unique (hown conn' hc) hconn)

theorem timeoutLoop_linked (now : ℕ) (rs : List Rpc) : ∀ {s : Sessions}, Linked none y s → s.rpcs = rs →
    (∀ r ∈ rs.takeWhile (timedOut now), r.conn.bind s.translating = none) → Linked none y (timeoutLoop now rs s) := by
  induction rs with
  | nil => exact fun h _ _ => h
  | cons r rest ih =>
    intro s h hrs hidle
    rw [timeoutLoop]
    by_cases ht : timedOut now r = true
    · rw [takeWhile_cons, if_pos ht] at hidle
      have hr : s.rpc r.sn = some r := by
        unfold rpc
        rw [hrs, List.find?_cons_of_pos (by simp)]
      have hcomm : (s.removeRpc r.sn).failAndClose r.conn = (s.failAndClose r.conn).removeRpc r.sn := by
        cases r.conn <;> rfl
      have hrest : ((s.failAndClose r.conn).removeRpc r.sn).rpcs = rest := by
        rw [← hcomm]
        have hnodup := h.unique
        rw [hrs, map_cons, nodup_cons] at hnodup
        have hfilter : s.rpcs.filter (·.sn ≠ r.sn) = rest := by
          rw [hrs, filter_cons_of_neg (by simp), filter_eq_self]
          intro r' hr'
          exact decide_eq_true fun hsn => hnodup.1 (mem_map.mpr ⟨r', hr', hsn⟩)
        cases r.conn <;> exact hfilter
      rw [if_pos ht, hcomm]
      refine ih (failAndClose_linked h hr fun conn hconn => ?_) hrest fun r' hr' => ?_
      · have hi := hidle r mem_cons_self
        rwa [hconn] at hi
      · have hi := hidle r' (mem_cons_of_mem _ hr')
        cases hconn' : r'.conn with
        | none => rfl
        | some conn' =>
          rw [hconn'] at hi
          show ((s.failAndClose r.conn).removeRpc r.sn).translating conn' = none
          cases r.conn with
          | none => exact hi
          | some conn =>
            exact @agNClose_translating_none s .closed conn conn' hi
    · rw [if_neg ht]
      exact h

theorem agNSetHandler_conns_of_ne {h : ConnHandler} (hne : conn' ≠ conn) :
    (s.agNSetHandler conn h).conns conn' = s.conns conn' := update_of_ne hne ..

theorem agNSetHandler_conns_self {h h' : ConnHandler} {closing : Bool} (hc : s.conns conn = some ⟨closing, h'⟩) :
    (s.agNSetHandler conn h).conns conn = some ⟨closing, h⟩ := by
  have hself : (s.agNSetHandler conn h).conns conn = (s.conns conn).map fun c => { c with handler := h } :=
    update_self ..
  rw [hself, hc]
  rfl

theorem authserverAuth_linked {sent : Bool} (h : Linked none none s)
    (hc : s.conns conn = some ⟨false, .authenticating⟩) : Linked none none (s.authserverAuth now conn sent) := by
  have hself := @agNSetHandler_conns_self (s.newRpc now conn) conn (.authserver (s.sn + 1)) .authenticating false hc
  have hauth := isAuthenticating_of_conns (.inl hc)
  have hidle := translating_of_isAuthenticating hauth
  have hrequest : Linked none none ((s.newRpc now conn).agNSetHandler conn (.authserver (s.sn + 1))) := by
    have htrans : ∀ conn', translating ((s.newRpc now conn).agNSetHandler conn (.authserver (s.sn + 1))) conn' =
        s.translating conn' := by
      intro conn'
      by_cases hne : conn' = conn
      · subst hne
        rw [hidle]
        unfold translating
        rw [hself]
      · exact translating_congr (agNSetHandler_conns_of_ne hne)
    refine ⟨h.hash, h.allocated, ?_, ?_, ?_, ?_, ?_, ⟨h.indexed.queue, h.indexed.nodup, h.indexed.below⟩, ?_, ?_⟩
    · intro a c hcl hx
      rw [htrans]
      exact h.bound a c hcl hx
    · intro conn' a ht
      rw [htrans] at ht
      exact h.back conn' a ht
    · intro conn' sn hc'
      show ∃ r, (s.newRpc now conn).rpcs.find? (·.sn = sn) = some r ∧ r.conn = some conn'
      unfold newRpc
      rw [List.find?_append]
      by_cases hne : conn' = conn
      · rw [hne, hself] at hc'
        have hsn : s.sn + 1 = sn := ConnHandler.authserver.inj (GatewayConn.mk.inj (some.inj hc')).2
        have hnone : s.rpcs.find? (·.sn = sn) = none := by
          rw [List.find?_eq_none]
          intro r hr hrsn
          have hle := h.sns r hr
          have heq : r.sn = sn := of_decide_eq_true hrsn
          omega
        rw [hnone, none_or, List.find?_cons_of_pos (by simp [hsn]), hne]
        exact ⟨_, rfl, rfl⟩
      · rw [agNSetHandler_conns_of_ne hne] at hc'
        obtain ⟨r, hr, hconn⟩ := h.pending conn' sn hc'
        have hr : s.rpcs.find? (·.sn = sn) = some r := hr
        rw [hr]
        exact ⟨r, rfl, hconn⟩
    · intro r hr
      show r.sn ≤ s.sn + 1
      obtain hr | hr := mem_append.mp hr
      · exact le_succ_of_le (h.sns r hr)
      · rw [mem_singleton.mp hr]
    · show ((s.newRpc now conn).rpcs.map (·.sn)).Nodup
      unfold newRpc
      rw [map_append, map_singleton]
      refine nodup_append.mpr ⟨h.unique, nodup_singleton _, ?_⟩
      intro a ha b hb hab
      obtain ⟨r, hr, rfl⟩ := mem_map.mp ha
      have hle := h.sns r hr
      rw [mem_singleton.mp hb] at hab
      exact Nat.ne_of_lt (lt_succ_of_le hle) hab
    · intro conn' ha hy
      by_cases hne : conn' = conn
      · rw [hne]
        exact h.waits conn hauth (fun hn => nomatch hn)
      · rw [isAuthenticating_congr (agNSetHandler_conns_of_ne hne)] at ha
        exact h.waits conn' ha hy
    · intro conn' a hw
      rw [htrans]
      exact h.idle conn' a hw
  unfold authserverAuth
  cases sent with
  | true => exact hrequest
  | false =>
    refine agNClose_idle hrequest ?_
    unfold translating
    rw [hself]

theorem rpc_map {sn sn' : ℕ} (rs : List Rpc) (h : sn' ≠ sn) :
    (rs.map fun r => if r.sn = sn then { r with conn := none } else r).find? (·.sn = sn') = rs.find? (·.sn = sn') := by
  induction rs with
  | nil => rfl
  | cons r rest ih =>
    rw [map_cons]
    by_cases hr : r.sn = sn
    · rw [if_pos hr, List.find?_cons_of_neg (by simp [hr, h.symm]), List.find?_cons_of_neg (by simp [hr, h.symm]), ih]
    · rw [if_neg hr]
      by_cases hr' : r.sn = sn'
      · rw [List.find?_cons_of_pos (by simp [hr']), List.find?_cons_of_pos (by simp [hr'])]
      · rw [List.find?_cons_of_neg (by simp [hr']), List.find?_cons_of_neg (by simp [hr']), ih]

def forgotten (sn : ℕ) (s : Sessions) : Sessions :=
  { s with rpcs := s.rpcs.map fun r => if r.sn = sn then { r with conn := none } else r }

theorem forgotten_linked {sn : ℕ} (h : Linked none y s) (hc : s.conns conn = some ⟨false, .authserver sn⟩) :
    Linked none y ((s.forgotten sn).agNClose .closed conn) := by
  have hidle := translating_of_isAuthenticating (isAuthenticating_of_conns (.inr ⟨sn, hc⟩))
  have hclosed := @agNClose_idle _ y .closed conn h hidle
  refine ⟨hclosed.hash, hclosed.allocated, hclosed.bound, hclosed.back, ?_, ?_, ?_,
    ⟨h.indexed.queue, h.indexed.nodup, h.indexed.below⟩, hclosed.waits, hclosed.idle⟩
  · intro conn' sn' hc'
    obtain ⟨r, hr, hconn⟩ := hclosed.pending conn' sn' hc'
    have hne : sn' ≠ sn := by
      rintro rfl
      obtain ⟨r', hr', hconn'⟩ := h.pending conn sn' hc
      have heq : r = r' := some_unique hr hr'
      rw [heq, hconn'] at hconn
      exact (agNClose_live hc').1 (some.inj hconn).symm
    exact ⟨r, (rpc_map s.rpcs hne).trans hr, hconn⟩
  · intro r hr
    obtain ⟨r', hr', rfl⟩ := mem_map.mp hr
    have hle := h.sns r' hr'
    split <;> exact hle
  · show ((s.rpcs.map fun r => if r.sn = sn then { r with conn := none } else r).map (·.sn)).Nodup
    have hmap : (s.rpcs.map fun r => if r.sn = sn then { r with conn := none } else r).map (·.sn) = s.rpcs.map (·.sn) := by
      rw [map_map]
      refine map_congr_left fun r _ => ?_
      show (if r.sn = sn then { r with conn := none } else r).sn = r.sn
      split <;> rfl
    rw [hmap]
    exact h.unique

/-! ## Binding a connection to a record -/

theorem removeWaiting_indexed (h : s.Indexed) : (s.removeWaiting conn).Indexed where
  queue := by
    intro conn' a
    show update s.wmap conn none conn' = some a ↔
      ∃ w ∈ s.wqueue.filter (fun w => s.wmap conn ≠ some w.addr), w.addr = a ∧ w.conn = conn'
    simp only [mem_filter, decide_eq_true_eq]
    by_cases hne : conn' = conn
    · rw [hne, update_self]
      refine iff_of_false (fun hn => nomatch hn) fun ⟨w, ⟨hw, hkeep⟩, _, hconn⟩ => ?_
      exact hkeep ((h.queue _ _).mpr ⟨w, hw, rfl, hconn⟩)
    · rw [update_of_ne hne, h.queue]
      constructor
      · intro ⟨w, hw, ha, hconn⟩
        refine ⟨w, ⟨hw, fun hmap => ?_⟩, ha, hconn⟩
        obtain ⟨w', hw', ha', hconn'⟩ := (h.queue _ _).mp hmap
        have heq : w' = w := inj_on_of_nodup_map h.nodup hw' hw ha'
        exact hne (by rw [← hconn, ← heq, hconn'])
      · intro ⟨w, ⟨hw, _⟩, ha, hconn⟩
        exact ⟨w, hw, ha, hconn⟩
  nodup := h.nodup.sublist (filter_sublist.map _)
  below := fun w hw => h.below w (mem_filter.mp hw).1

theorem removeWaiting_linked (h : Linked x none s) : Linked x (some conn) (s.removeWaiting conn) := by
  refine ⟨h.hash, h.allocated, h.bound, h.back, h.pending, h.sns, h.unique, removeWaiting_indexed h.indexed, ?_, ?_⟩
  · intro conn' ha hy
    have hne : conn' ≠ conn := fun hc => hy (by rw [hc])
    obtain ⟨a, hw⟩ := h.waits conn' ha (fun hn => nomatch hn)
    exact ⟨a, (update_of_ne hne ..).trans hw⟩
  · intro conn' a hw
    exact h.idle conn' a (of_update_none hw).2

theorem translate_linked {h' : ConnHandler} (h : Linked (some a) (some conn) s) (hc : s.clients a = some c)
    (hconn : c.conn = conn) (hlive : s.conns conn = some ⟨false, h'⟩) (hidle : s.translating conn = none)
    (hw : s.wmap conn = none) : Linked none none (s.agNSetHandler conn (.translating a)) := by
  have hself := @agNSetHandler_conns_self s conn (.translating a) h' false hlive
  have hof : ∀ conn', conn' ≠ conn → (s.agNSetHandler conn (.translating a)).conns conn' = s.conns conn' :=
    fun conn' hne => agNSetHandler_conns_of_ne hne
  refine ⟨h.hash, h.allocated, ?_, ?_, ?_, h.sns, h.unique, ⟨h.indexed.queue, h.indexed.nodup, h.indexed.below⟩, ?_, ?_⟩
  · intro b d hd _
    have hd : s.clients b = some d := hd
    by_cases hb : b = a
    · rw [hb, hc] at hd
      rw [← some.inj hd, hconn, hb]
      exact translating_of_conns hself
    · have hx : some b ≠ some a := fun hx => hb (some.inj hx)
      rw [translating_congr (hof _ (h.conn_ne hd hx hidle))]
      exact h.bound b d hd hx
  · intro conn' b ht
    by_cases hne : conn' = conn
    · rw [hne, translating_of_conns hself] at ht
      rw [hne, ← some.inj ht]
      exact ⟨c, hc, hconn⟩
    · rw [translating_congr (hof _ hne)] at ht
      exact h.back conn' b ht
  · intro conn' sn hc'
    by_cases hne : conn' = conn
    · rw [hne, hself] at hc'
      exact ConnHandler.noConfusion (GatewayConn.mk.inj (some.inj hc')).2
    · rw [hof _ hne] at hc'
      exact h.pending conn' sn hc'
  · intro conn' ha _
    have hne : conn' ≠ conn := by
      rintro rfl
      have ht := translating_of_isAuthenticating ha
      rw [translating_of_conns hself] at ht
      cases ht
    rw [isAuthenticating_congr (hof _ hne)] at ha
    exact h.waits conn' ha fun hy => hne (some.inj hy)
  · intro conn' b hw'
    have hne : conn' ≠ conn := by
      rintro rfl
      rw [show (s.agNSetHandler conn' (.translating a)).wmap conn' = s.wmap conn' from rfl, hw] at hw'
      cases hw'
    rw [translating_congr (hof _ hne)]
    exact h.idle conn' b hw'

theorem bind_linked (h : Linked (some a) none s) (hc : s.clients a = some c)
    (hidle : ∀ conn, s.translating conn ≠ some a) (ha : s.isAuthenticating conn = true) :
    Linked none none (s.bind conn a c) := by
  obtain ⟨h', hl⟩ := live_of_isAuthenticating ha
  have hrebound := @update_linked _ (some a) none a c { c with conn := conn, logouts := 0 } h hc rfl (.inr ⟨rfl, hidle⟩)
  have hcleared := @removeWaiting_linked _ (some a) conn hrebound
  exact translate_linked (c := { c with conn := conn, logouts := 0 }) hcleared (update_self ..) rfl hl
    (translating_of_isAuthenticating ha) (update_self ..)

theorem bind_conns_self {h' : ConnHandler} (hc : s.conns conn = some ⟨false, h'⟩) :
    (s.bind conn a c).conns conn = some ⟨false, .translating a⟩ :=
  @agNSetHandler_conns_self (removeWaiting conn _) conn (.translating a) h' false hc

theorem bind_conns_of_ne (h : conn' ≠ conn) : (s.bind conn a c).conns conn' = s.conns conn' :=
  update_of_ne h ..

theorem bind_calm {h' : ConnHandler} (hc : s.conns conn = some ⟨false, h'⟩) : Calm s (s.bind conn a c) := by
  refine ⟨rfl, fun conn' sn hc' => ?_⟩
  by_cases hne : conn' = conn
  · rw [hne, bind_conns_self hc] at hc'
    exact ConnHandler.noConfusion (GatewayConn.mk.inj (some.inj hc')).2
  · rwa [bind_conns_of_ne hne] at hc'

/-- Where the record of an authenticated player comes from. -/
inductive Taken (now conn pid : ℕ) (s : Sessions) : ℕ → ClientRecord → Sessions → Prop
  | new {a : ℕ} {s' : Sessions} (hash : s.clientHash pid = none) (hnew : s.clientNew conn pid = some (a, s')) :
    Taken now conn pid s a ⟨conn, pid, 0⟩ s'
  | old {a : ℕ} {c : ClientRecord} (hash : s.clientHash pid = some a) (hc : s.clients a = some c) :
    Taken now conn pid s a c (s.startAuth .takenOver now c.conn)

/-- `clientHash` finds the player, or there is room for another client and the sweep spares the connection. -/
def Takes (now conn pid : ℕ) (s : Sessions) : Prop :=
  if s.clientHash pid = none then s.clientCount < 10000 else ¬ s.Expires now conn

instance (now conn pid : ℕ) (s : Sessions) : Decidable (s.Takes now conn pid) := by
  unfold Takes
  infer_instance

theorem takeClient_taken {now pid : ℕ} (h : Linked none none s) (ha : s.isAuthenticating conn = true)
    (htakes : s.Takes now conn pid) :
    ∃ a c s', s.takeClient now conn pid = .ok (a, s') ∧ Taken now conn pid s a c s' := by
  unfold takeClient
  unfold Takes at htakes
  cases hash : s.clientHash pid with
  | none =>
    rw [if_pos hash] at htakes
    have hnew : ∃ r, s.clientNew conn pid = some r := by
      unfold clientNew
      rw [if_pos htakes]
      exact ⟨_, rfl⟩
    obtain ⟨⟨a, s'⟩, hnew⟩ := hnew
    refine ⟨a, ⟨conn, pid, 0⟩, s', ?_, .new hash hnew⟩
    simp only [hnew]
  | some a =>
    obtain ⟨c, hc, -⟩ := (h.hash pid a).mp hash
    have hne := h.conn_ne hc (some_ne_none a) (translating_of_isAuthenticating ha)
    refine ⟨a, c, s.startAuth .takenOver now c.conn, ?_, .old hash hc⟩
    simp only [client_ok hc, ok_bind, if_pos hne]
    rfl

theorem clientNew_eq {pid : ℕ} {s' : Sessions} (h : s.clientNew conn pid = some (a, s')) :
    a = s.malloc ∧ s' = { s with
      clients := update s.clients s.malloc (some ⟨conn, pid, 0⟩)
      clientHash := update s.clientHash pid (some s.malloc)
      clientCount := s.clientCount + 1
      malloc := s.malloc + 1 } := by
  unfold clientNew at h
  split at h
  · obtain ⟨h1, h2⟩ := Prod.mk.inj (some.inj h)
    exact ⟨h1.symm, h2.symm⟩
  · cases h

theorem Linked.unallocated (h : Linked x y s) : s.clients s.malloc = none := by
  cases hc : s.clients s.malloc with
  | none => rfl
  | some c => exact absurd (h.allocated _ _ hc) (Nat.lt_irrefl _)

theorem clientNew_linked {pid : ℕ} {s' : Sessions} (h : Linked none none s) (hash : s.clientHash pid = none)
    (hnew : s.clientNew conn pid = some (a, s')) : Linked (some a) none s' := by
  obtain ⟨rfl, rfl⟩ := clientNew_eq hnew
  have hfree := h.unallocated
  have hof : ∀ b d, s.clients b = some d → update s.clients s.malloc (some ⟨conn, pid, 0⟩) b = some d := by
    intro b d hd
    have hb : b ≠ s.malloc := by
      rintro rfl
      rw [hfree] at hd
      cases hd
    exact (update_of_ne hb ..).trans hd
  refine ⟨?_, ?_, ?_, ?_, h.pending, h.sns, h.unique, ⟨h.indexed.queue, h.indexed.nodup, ?_⟩, h.waits, h.idle⟩
  · intro p b
    show update s.clientHash pid (some s.malloc) p = some b ↔
      ∃ d, update s.clients s.malloc (some ⟨conn, pid, 0⟩) b = some d ∧ d.playerid = p
    by_cases hp : p = pid
    · rw [hp, update_self]
      constructor
      · intro hb
        rw [← some.inj hb, update_self]
        exact ⟨_, rfl, rfl⟩
      · intro ⟨d, hd, hdp⟩
        by_cases hb : b = s.malloc
        · rw [hb]
        · rw [update_of_ne hb] at hd
          have hmap := (h.hash pid b).mpr ⟨d, hd, hdp⟩
          rw [hash] at hmap
          cases hmap
    · rw [update_of_ne hp, h.hash]
      constructor
      · intro ⟨d, hd, hdp⟩
        exact ⟨d, hof b d hd, hdp⟩
      · intro ⟨d, hd, hdp⟩
        by_cases hb : b = s.malloc
        · rw [hb, update_self] at hd
          rw [← some.inj hd] at hdp
          exact absurd hdp.symm hp
        · rw [update_of_ne hb] at hd
          exact ⟨d, hd, hdp⟩
  · intro b d hd
    show b < s.malloc + 1
    by_cases hb : b = s.malloc
    · rw [hb]
      exact lt_succ_self _
    · have hd : s.clients b = some d := (update_of_ne hb ..).symm.trans hd
      exact lt_succ_of_lt (h.allocated b d hd)
  · intro b d hd hx
    have hb : b ≠ s.malloc := fun hb => hx (by rw [hb])
    have hd : s.clients b = some d := (update_of_ne hb ..).symm.trans hd
    exact h.bound b d hd (some_ne_none b)
  · intro conn' b ht
    obtain ⟨d, hd, hdc⟩ := h.back conn' b ht
    exact ⟨d, hof b d hd, hdc⟩
  · intro w hw
    exact lt_succ_of_lt (h.indexed.below w hw)

/-- The record is there, no connection is bound to it, and the connection of the request still authenticates. -/
theorem Taken.linked {now pid : ℕ} {s' : Sessions} (h : Linked none none s) (ha : s.isAuthenticating conn = true)
    (htakes : s.Takes now conn pid) (ht : Taken now conn pid s a c s') :
    Linked (some a) none s' ∧ s'.clients a = some c ∧ (∀ conn, s'.translating conn ≠ some a) ∧
      s'.isAuthenticating conn = true ∧ Calm s s' := by
  cases ht with
  | new hash hnew =>
    have hlinked := clientNew_linked h hash hnew
    obtain ⟨rfl, rfl⟩ := clientNew_eq hnew
    refine ⟨hlinked, update_self .., fun conn' ht => ?_, ha, Calm.refl s⟩
    obtain ⟨d, hd, -⟩ := h.back conn' s.malloc ht
    rw [h.unallocated] at hd
    cases hd
  | old hash hc =>
    obtain ⟨hlinked, hidle⟩ := @restart_linked s none .takenOver a c now h hc
    refine ⟨hlinked, (congrFun startAuth_clients a).trans hc, hidle, ?_, startAuth_calm _ _ _ _⟩
    have hne := (h.conn_ne hc (some_ne_none a) (translating_of_isAuthenticating ha)).symm
    unfold Takes at htakes
    rw [if_neg (by rw [hash]; exact some_ne_none a)] at htakes
    rw [isAuthenticating_congr ((startAuth_conns_of_ne hne).trans (clean_conns htakes))]
    exact ha

/-! ## Steps -/

/-- The connection of a request that is granted still authenticates, and the record of the player is there or is found
room; that of a request that is refused does not translate. -/
def ReplyBinds (now conn : ℕ) (result : AuthResult) (s : Sessions) : Prop :=
  match result with
  | .pass pid first => s.isAuthenticating conn = true ∧ first.findsNoWorld = false ∧ s.Takes now conn pid
  | _ => s.translating conn = none

instance (now conn : ℕ) (result : AuthResult) (s : Sessions) : Decidable (s.ReplyBinds now conn result) := by
  unfold ReplyBinds
  cases result <;> infer_instance

/-- A new connection has no entry left in the waiting list; a world is found where one is looked for; a reply meets
`ReplyBinds`; the connection of a request that is too late does not translate; the world refuses no login of a player who
has a record. -/
def Binds (s : Sessions) (e : ℕ × GatewayEvent) : Prop :=
  match e.2 with
  | .accept conn => s.conns conn = none → s.wmap conn = none
  | .message conn _ m => s.translating conn ≠ none → m.findsNoWorld = false
  | .closed conn world => s.translating conn ≠ none → world ≠ .noWorld
  | .authRespond sn result => ∀ conn ∈ (s.rpc sn).bind (·.conn), s.ReplyBinds e.1 conn result
  | .authserverUpdate => ∀ r ∈ s.rpcs.takeWhile (timedOut e.1), r.conn.bind s.translating = none
  | .world pid answer => answer = .loginFailed → s.clientHash pid = none
  | .cleanClient => True

instance (s : Sessions) (e : ℕ × GatewayEvent) : Decidable (s.Binds e) := by
  unfold Binds
  cases e.2 <;> infer_instance

def added (conn : ℕ) (s : Sessions) : Sessions :=
  { s with conns := update s.conns conn (some ⟨false, .authenticating⟩) }

inductive Outcome (now : ℕ) (s : Sessions) : GatewayEvent → Sessions → Prop
  | nothing {e : GatewayEvent} : Outcome now s e s
  | accepted {conn : ℕ} (hc : s.conns conn = none) :
    Outcome now s (.accept conn) ((s.added conn).startAuth .closed now conn)
  | refused {conn : ℕ} {m : ClientMessage} (hc : s.conns conn = some ⟨false, .authenticating⟩) :
    Outcome now s (.message conn .refused m) (s.agNClose .closed conn)
  | requested {conn : ℕ} {sent : Bool} {m : ClientMessage} (hc : s.conns conn = some ⟨false, .authenticating⟩) :
    Outcome now s (.message conn (.login sent) m) (s.authserverAuth now conn sent)
  | served {conn a : ℕ} {auth : AuthMessage} {m : ClientMessage} {c : ClientRecord} {s' : Sessions}
    (ht : s.translating conn = some a) (hc : s.clients a = some c) (hconn : c.conn = conn)
    (hs : Served now a c s m s') : Outcome now s (.message conn auth m) s'
  | closedAuth {conn : ℕ} {world : ToWorld} (hc : s.conns conn = some ⟨false, .authenticating⟩) :
    Outcome now s (.closed conn world) (s.agNClose .closed conn)
  | closedRequest {conn sn : ℕ} {world : ToWorld} (hc : s.conns conn = some ⟨false, .authserver sn⟩) :
    Outcome now s (.closed conn world) ((s.forgotten sn).agNClose .closed conn)
  | closedSession {conn a : ℕ} {world : ToWorld} {c : ClientRecord} (ht : s.translating conn = some a)
    (hc : s.clients a = some c) (hconn : c.conn = conn) :
    Outcome now s (.closed conn world) ((s.loggedOut now a c world).agNClose .closed conn)
  | dropped {sn : ℕ} {result : AuthResult} {r : Rpc} (hr : s.rpc sn = some r) (hconn : r.conn = none) :
    Outcome now s (.authRespond sn result) (s.removeRpc sn)
  | failed {sn conn : ℕ} {result : AuthResult} {r : Rpc} (hr : s.rpc sn = some r) (hconn : r.conn = some conn)
    (hresult : ∀ pid first, result ≠ .pass pid first) :
    Outcome now s (.authRespond sn result) ((s.agNClose .closed conn).removeRpc sn)
  | passed {sn conn pid a : ℕ} {first : ClientMessage} {r : Rpc} {c : ClientRecord} {s₁ s' : Sessions}
    (hr : s.rpc sn = some r) (hconn : r.conn = some conn) (htaken : Taken now conn pid s a c s₁)
    (hs : Served now a { c with conn := conn, logouts := 0 } (s₁.bind conn a c) first s') :
    Outcome now s (.authRespond sn (.pass pid first)) (s'.removeRpc sn)
  | timedOut : Outcome now s .authserverUpdate (s.authserverUpdate now)
  | kicked {pid a : ℕ} {c : ClientRecord} (hc : s.clients a = some c) :
    Outcome now s (.world pid .logout) ((s.agNClose .world c.conn).clientFree a c)
  | cleaned : Outcome now s .cleanClient s.cleanClient

theorem onMessage_outcome {auth : AuthMessage} {m : ClientMessage} (h : Linked none none s)
    (hb : s.translating conn ≠ none → m.findsNoWorld = false) :
    ∃ s', s.onMessage now conn auth m = .ok s' ∧ Outcome now s (.message conn auth m) s' := by
  unfold onMessage
  cases hc : s.conns conn with
  | none => exact ⟨s, rfl, .nothing⟩
  | some g =>
    obtain ⟨closing, hd⟩ := g
    cases closing with
    | true => exact ⟨s, rfl, .nothing⟩
    | false =>
      cases hd with
      | authenticating =>
        cases auth with
        | text => exact ⟨s, rfl, .nothing⟩
        | refused => exact ⟨_, rfl, .refused hc⟩
        | login sent => exact ⟨_, rfl, .requested hc⟩
      | authserver sn => exact ⟨s, rfl, .nothing⟩
      | translating a =>
        have ht := translating_of_conns hc
        obtain ⟨c, hcl, hconn⟩ := h.back conn a ht
        obtain ⟨s', hs', hs⟩ := @translateMessage_served s conn a c now m hcl hconn
          (hb (by rw [ht]; exact some_ne_none a))
        exact ⟨s', hs', .served ht hcl hconn hs⟩

theorem onClosed_outcome {world : ToWorld} (h : Linked none none s)
    (hb : s.translating conn ≠ none → world ≠ .noWorld) :
    ∃ s', s.onClosed now conn world = .ok s' ∧ Outcome now s (.closed conn world) s' := by
  unfold onClosed
  cases hc : s.conns conn with
  | none => exact ⟨s, rfl, .nothing⟩
  | some g =>
    obtain ⟨closing, hd⟩ := g
    cases closing with
    | true => exact ⟨s, rfl, .nothing⟩
    | false =>
      cases hd with
      | authenticating => exact ⟨_, rfl, .closedAuth hc⟩
      | authserver sn =>
        obtain ⟨r, hr, -⟩ := h.pending conn sn hc
        refine ⟨_, ?_, .closedRequest hc⟩
        simp only [onClosedClient, hr, ok_bind]
        rfl
      | translating a =>
        have ht := translating_of_conns hc
        obtain ⟨c, hcl, hconn⟩ := h.back conn a ht
        have hworld := hb (by rw [ht]; exact some_ne_none a)
        refine ⟨_, ?_, .closedSession ht hcl hconn⟩
        simp only [translateClosed, client_ok hcl, ok_bind, if_pos hconn.symm, sendLogout_eq hcl hworld]
        rfl

theorem afterAuth_outcome {now pid : ℕ} {first : ClientMessage} (h : Linked none none s)
    (ha : s.isAuthenticating conn = true) (hfirst : first.findsNoWorld = false) (htakes : s.Takes now conn pid) :
    ∃ a c s₁ s', s.afterAuth now conn pid first = .ok s' ∧ Taken now conn pid s a c s₁ ∧
      Served now a { c with conn := conn, logouts := 0 } (s₁.bind conn a c) first s' := by
  obtain ⟨a, c, s₁, htake, htaken⟩ := takeClient_taken h ha htakes
  obtain ⟨-, hc, -, -, -⟩ := htaken.linked h ha htakes
  have hbound : (s₁.bind conn a c).clients a = some { c with conn := conn, logouts := 0 } := update_self ..
  obtain ⟨s', hs', hs⟩ := @translateMessage_served _ conn a _ now first hbound rfl hfirst
  refine ⟨a, c, s₁, s', ?_, htaken, hs⟩
  simp only [afterAuth, htake, ok_bind, client_ok hc]
  exact hs'

theorem authRespond_outcome {now sn : ℕ} {result : AuthResult} (h : Linked none none s)
    (hb : s.Binds (now, .authRespond sn result)) :
    ∃ s', s.authRespond now sn result = .ok s' ∧ Outcome now s (.authRespond sn result) s' := by
  unfold authRespond
  cases hr : s.rpc sn with
  | none => exact ⟨s, rfl, .nothing⟩
  | some r =>
    cases hconn : r.conn with
    | none => cases result <;> exact ⟨_, by simp only [hconn, failAndClose], .dropped hr hconn⟩
    | some conn =>
      have hsome : (s.rpc sn).bind (·.conn) = some conn := by
        rw [hr]
        exact hconn
      cases result with
      | fail => exact ⟨_, by simp only [hconn, failAndClose], .failed hr hconn fun _ _ hn => nomatch hn⟩
      | noAccount => exact ⟨_, by simp only [hconn], .failed hr hconn fun _ _ hn => nomatch hn⟩
      | pass pid first =>
        obtain ⟨ha, hfirst, htakes⟩ := hb conn hsome
        obtain ⟨a, c, s₁, s', hs', htaken, hs⟩ := afterAuth_outcome h ha hfirst htakes
        refine ⟨_, ?_, .passed hr hconn htaken hs⟩
        simp only [hconn, hs', ok_bind]
        rfl

theorem step_outcome (h : Linked none none s) {e : ℕ × GatewayEvent} (hb : s.Binds e) :
    ∃ s', s.step e = .ok s' ∧ Outcome e.1 s e.2 s' := by
  obtain ⟨now, e⟩ := e
  cases e with
  | accept conn =>
    refine ⟨s.accept now conn, rfl, ?_⟩
    show Outcome now s (.accept conn) (s.accept now conn)
    unfold accept
    cases hc : s.conns conn with
    | none => exact .accepted hc
    | some g => exact .nothing
  | message conn auth m => exact onMessage_outcome h hb
  | closed conn world => exact onClosed_outcome h hb
  | authRespond sn result => exact authRespond_outcome h hb
  | authserverUpdate => exact ⟨_, rfl, .timedOut⟩
  | world pid answer =>
    simp only [step, translateToClient]
    cases hash : s.clientHash pid with
    | none => exact ⟨s, rfl, .nothing⟩
    | some a =>
      obtain ⟨c, hc, -⟩ := (h.hash pid a).mp hash
      simp only [client_ok hc, ok_bind]
      cases answer with
      | loginFailed =>
        have hn := hb rfl
        rw [hash] at hn
        cases hn
      | logout => exact ⟨_, rfl, .kicked hc⟩
      | other => exact ⟨s, rfl, .nothing⟩
  | cleanClient => exact ⟨_, rfl, .cleaned⟩

theorem startAuth_waits : ∃ b, (s.startAuth how now conn).wmap conn = some b := ⟨_, update_self ..⟩

theorem added_translating (hc : s.conns conn = none) (conn' : ℕ) :
    (s.added conn).translating conn' = s.translating conn' := by
  by_cases hne : conn' = conn
  · have hself : (s.added conn).conns conn = some ⟨false, .authenticating⟩ := update_self ..
    unfold translating
    rw [hne, hself, hc]
  · exact translating_congr (update_of_ne hne ..)

section Accept
variable (h : Linked none none s) (hc : s.conns conn = none)
include h hc

theorem added_linked : Linked none (some conn) (s.added conn) := by
  have hself : (s.added conn).conns conn = some ⟨false, .authenticating⟩ := update_self ..
  have hof : ∀ conn', conn' ≠ conn → (s.added conn).conns conn' = s.conns conn' := fun _ hne => update_of_ne hne ..
  refine ⟨h.hash, h.allocated, ?_, ?_, ?_, h.sns, h.unique, ⟨h.indexed.queue, h.indexed.nodup, h.indexed.below⟩, ?_, ?_⟩
  · intro a c hcl hx
    rw [added_translating hc]
    exact h.bound a c hcl hx
  · intro conn' a ht
    rw [added_translating hc] at ht
    exact h.back conn' a ht
  · intro conn' sn hc'
    by_cases hne : conn' = conn
    · rw [hne, hself] at hc'
      exact ConnHandler.noConfusion (GatewayConn.mk.inj (some.inj hc')).2
    · rw [hof _ hne] at hc'
      exact h.pending conn' sn hc'
  · intro conn' ha hy
    have hne : conn' ≠ conn := fun hn => hy (by rw [hn])
    rw [isAuthenticating_congr (hof _ hne)] at ha
    exact h.waits conn' ha fun hn => nomatch hn
  · intro conn' a hw'
    rw [added_translating hc]
    exact h.idle conn' a hw'

theorem accepted_linked {now : ℕ} (hw : s.wmap conn = none) :
    Linked none none ((s.added conn).startAuth .closed now conn) := by
  have hidle : s.translating conn = none := by
    unfold translating
    rw [hc]
  have hstarted := @startAuth_linked _ none (some conn) .closed conn now (added_linked h hc) hw fun a c hcl hconn =>
    absurd hconn (h.conn_ne hcl (some_ne_none a) hidle)
  refine { hstarted with waits := fun conn' ha _ => ?_ }
  by_cases hne : conn' = conn
  · rw [hne]
    exact startAuth_waits
  · exact hstarted.waits conn' ha fun hn => hne (some.inj hn)

end Accept

theorem cleanClient_conns (h : ConnHandler) (conn : ℕ) :
    s.cleanClient.conns conn = some ⟨false, h⟩ ↔ s.conns conn = some ⟨false, h⟩ := by
  show (s.conns conn).filter (fun c => !c.closing) = some ⟨false, h⟩ ↔ _
  rw [filter_eq_some_iff]
  exact ⟨And.left, fun hc => ⟨hc, rfl⟩⟩

theorem translating_iff : s.translating conn = some a ↔ s.conns conn = some ⟨false, .translating a⟩ :=
  ⟨conns_of_translating, translating_of_conns⟩

theorem isAuthenticating_iff : s.isAuthenticating conn = true ↔
    s.conns conn = some ⟨false, .authenticating⟩ ∨ ∃ sn, s.conns conn = some ⟨false, .authserver sn⟩ :=
  ⟨conns_of_isAuthenticating, isAuthenticating_of_conns⟩

theorem cleanClient_translating (conn : ℕ) : s.cleanClient.translating conn = s.translating conn := by
  ext a
  rw [translating_iff, translating_iff, cleanClient_conns]

theorem cleanClient_isAuthenticating (conn : ℕ) : s.cleanClient.isAuthenticating conn = s.isAuthenticating conn := by
  rw [Bool.eq_iff_iff]
  simp only [isAuthenticating_iff, cleanClient_conns]

theorem cleanClient_linked (h : Linked x y s) : Linked x y s.cleanClient where
  hash := h.hash
  allocated := h.allocated
  bound := by
    intro a c hc hx
    rw [cleanClient_translating]
    exact h.bound a c hc hx
  back := by
    intro conn a ht
    rw [cleanClient_translating] at ht
    exact h.back conn a ht
  pending := fun conn sn hc => h.pending conn sn ((cleanClient_conns _ conn).mp hc)
  sns := h.sns
  unique := h.unique
  indexed := ⟨h.indexed.queue, h.indexed.nodup, h.indexed.below⟩
  waits := by
    intro conn ha hy
    rw [cleanClient_isAuthenticating] at ha
    exact h.waits conn ha hy
  idle := by
    intro conn a hw
    rw [cleanClient_translating]
    exact h.idle conn a hw

theorem Outcome.linked {e : ℕ × GatewayEvent} {s' : Sessions} (h : Linked none none s) (hb : s.Binds e)
    (ho : Outcome e.1 s e.2 s') : Linked none none s' := by
  obtain ⟨now, e⟩ := e
  cases ho with
  | nothing => exact h
  | accepted hc => exact accepted_linked h hc (hb hc)
  | refused hc => exact agNClose_idle h (translating_of_isAuthenticating (isAuthenticating_of_conns (.inl hc)))
  | requested hc => exact authserverAuth_linked h hc
  | served ht hc hconn hs => exact hs.linked h hc
  | closedAuth hc => exact agNClose_idle h (translating_of_isAuthenticating (isAuthenticating_of_conns (.inl hc)))
  | closedRequest hc => exact forgotten_linked h hc
  | @closedSession conn a world c ht hc hconn =>
    obtain ⟨h', hidle⟩ := @loggedOut_linked s none a c now world h hc
    rw [hconn] at hidle
    exact agNClose_idle h' hidle
  | @dropped sn result r hr hconn =>
    refine removeRpc_linked h fun conn hc => ?_
    obtain ⟨r', hr', hconn'⟩ := h.pending conn sn hc
    rw [hr] at hr'
    rw [some.inj hr', hconn'] at hconn
    cases hconn
  | @failed sn conn result r hr hconn hresult =>
    have hidle : s.translating conn = none := by
      have hrb := hb conn (by rw [hr]; exact hconn)
      cases result with
      | pass pid first => exact absurd rfl (hresult pid first)
      | fail => exact hrb
      | noAccount => exact hrb
    have hclosed := failAndClose_linked h hr fun conn' hconn' => by
      rw [hconn] at hconn'
      rw [← some.inj hconn']
      exact hidle
    rw [hconn] at hclosed
    exact hclosed
  | @passed sn conn pid a first r c s₁ s' hr hconn htaken hs =>
    obtain ⟨ha, -, htakes⟩ := hb conn (by rw [hr]; exact hconn)
    obtain ⟨h₁, hc, hidle, ha₁, hcalm⟩ := htaken.linked h ha htakes
    have hbound := bind_linked h₁ hc hidle ha₁
    have h' := hs.linked hbound (update_self ..)
    refine removeRpc_linked h' fun conn' hc' => ?_
    obtain ⟨hd, hl⟩ := live_of_isAuthenticating ha₁
    have hcb := hs.calm.2 conn' sn hc'
    obtain ⟨r', hr', hconn'⟩ := h.pending conn' sn (hcalm.2 conn' sn ((bind_calm hl).2 conn' sn hcb))
    rw [hr] at hr'
    have hsame : conn' = conn := by
      rw [← some.inj hr', hconn] at hconn'
      exact (some.inj hconn').symm
    rw [hsame, bind_conns_self hl] at hcb
    exact ConnHandler.noConfusion (GatewayConn.mk.inj (some.inj hcb)).2
  | timedOut => exact timeoutLoop_linked now s.rpcs h rfl hb
  | kicked hc => exact closeFree_linked h hc
  | cleaned => exact cleanClient_linked h

theorem init_linked : Linked none none init where
  hash := fun _ _ => iff_of_false (fun hn => nomatch hn) fun ⟨_, hn, _⟩ => nomatch hn
  allocated := fun _ _ hc => nomatch hc
  bound := fun _ _ hc => nomatch hc
  back := fun _ _ ht => nomatch ht
  pending := fun _ _ hc => nomatch hc
  sns := fun _ hr => nomatch hr
  unique := nodup_nil
  indexed := by
    refine ⟨fun _ _ => iff_of_false (fun hn => nomatch hn) fun ⟨_, hn, _⟩ => ?_, nodup_nil, fun _ hw => nomatch hw⟩
    exact not_mem_nil hn
  waits := fun _ ha => nomatch ha
  idle := fun _ _ _ => rfl

theorem Linked.isBound (h : Linked none none s) : s.Bound where
  distinct := fun _ _ _ _ hc hd hconn => (h.distinct hc hd hconn.symm).symm
  live := fun a c hc => h.bound a c hc (some_ne_none a)
  back := h.back
  hash := h.hash

/-! ## Only those who authenticate wait -/

/-- No entry is left of a connection that does not authenticate. -/
def Exact (s : Sessions) : Prop := ∀ conn a, s.wmap conn = some a → s.isAuthenticating conn = true

theorem agNClose_exact (h : s.Exact) (hidle : s.isAuthenticating conn = false) : (s.agNClose how conn).Exact := by
  intro conn' a hw
  have ha := h conn' a hw
  have hne : conn' ≠ conn := by
    rintro rfl
    rw [hidle] at ha
    cases ha
  rw [isAuthenticating_congr (agNClose_conns_of_ne hne)]
  exact ha

theorem not_isAuthenticating (h : s.translating conn = some a) : s.isAuthenticating conn = false := by
  unfold isAuthenticating
  rw [conns_of_translating h]

theorem startAuth_exact {hd : ConnHandler} (hi : s.Indexed) (hw : s.wmap conn = none)
    (hlive : s.conns conn = some ⟨false, hd⟩) (h : s.Exact) : (s.startAuth how now conn).Exact := by
  intro conn' a hw'
  by_cases hne : conn' = conn
  · rw [hne]
    refine isAuthenticating_of_conns (.inl ?_)
    rw [startAuth_conns_self, clean_conns (not_expires hi hw), hlive]
    rfl
  · have hw' : (s.cleanWaitingClient now).wmap conn' = some a := (update_of_ne hne ..).symm.trans hw'
    obtain ⟨hw', hc⟩ := (cleanLoop_swept now s.wqueue s).waiting conn' a hw'
    rw [isAuthenticating_congr ((startAuth_conns_of_ne hne).trans hc)]
    exact h conn' a hw'

theorem Served.exact {now : ℕ} {m : ClientMessage} {s' : Sessions} (hl : Linked none none s) (hc : s.clients a = some c)
    (hm : ∀ world, m ≠ .unknownFlag world) (h : s.Exact) (hs : Served now a c s m s') : s'.Exact := by
  cases hs with
  | stays => exact h
  | logout => exact h
  | malformed =>
    exact @agNClose_exact s .closed c.conn h (not_isAuthenticating (hl.bound a c hc (some_ne_none a)))
  | unknownFlag world => exact absurd rfl (hm world)

theorem timeoutLoop_exact (now : ℕ) (rs : List Rpc) : ∀ {s : Sessions}, s.Exact →
    (∀ r ∈ rs.takeWhile (timedOut now), ∀ conn ∈ r.conn, s.isAuthenticating conn = false) →
    (timeoutLoop now rs s).Exact := by
  induction rs with
  | nil => exact fun h _ => h
  | cons r rest ih =>
    intro s h hidle
    rw [timeoutLoop]
    by_cases ht : timedOut now r = true
    · rw [takeWhile_cons, if_pos ht] at hidle
      rw [if_pos ht]
      cases hconn : r.conn with
      | none => exact ih h fun r' hr' => hidle r' (mem_cons_of_mem _ hr')
      | some conn =>
        refine ih (@agNClose_exact (s.removeRpc r.sn) .closed conn h (hidle r mem_cons_self conn hconn)) ?_
        intro r' hr' conn' hconn'
        refine Bool.eq_false_iff.mpr fun ha => ?_
        have hstill := (isAuthenticating_agNClose ha).2
        have hno := hidle r' (mem_cons_of_mem _ hr') conn' hconn'
        rw [show (s.removeRpc r.sn).isAuthenticating conn' = s.isAuthenticating conn' from rfl, hno] at hstill
        cases hstill
    · rw [if_neg ht]
      exact h

/-- No connection that authenticates is closed but by the sweep, and no session is ended by a logout request of the
gateway, after which the closing connection would wait. -/
def Waits (s : Sessions) (e : ℕ × GatewayEvent) : Prop :=
  match e.2 with
  | .message conn auth m =>
    (s.conns conn = some ⟨false, .authenticating⟩ → auth.closes = false) ∧
      (s.translating conn ≠ none → m.isUnknownFlag = false)
  | .closed conn _ => s.isAuthenticating conn = false ∧ s.translating conn = none
  | .authRespond sn result => ∀ conn ∈ (s.rpc sn).bind (·.conn),
    match result with
    | .pass _ first => first.isUnknownFlag = false
    | _ => s.isAuthenticating conn = false
  | .authserverUpdate => ∀ r ∈ s.rpcs.takeWhile (timedOut e.1), ∀ conn ∈ r.conn, s.isAuthenticating conn = false
  | _ => True

instance (s : Sessions) (e : ℕ × GatewayEvent) : Decidable (s.Waits e) := by
  unfold Waits
  cases e.2 with
  | authRespond sn result => cases result <;> infer_instance
  | _ => infer_instance

theorem Outcome.exact {e : ℕ × GatewayEvent} {s' : Sessions} (h : Linked none none s) (hx : s.Exact) (hb : s.Binds e)
    (hw : s.Waits e) (ho : Outcome e.1 s e.2 s') : s'.Exact := by
  obtain ⟨now, e⟩ := e
  cases ho with
  | nothing => exact hx
  | @accepted conn hc =>
    have hnone := hb hc
    refine startAuth_exact ⟨h.indexed.queue, h.indexed.nodup, h.indexed.below⟩ hnone (update_self ..) ?_
    intro conn' a hw'
    have hne : conn' ≠ conn := by
      rintro rfl
      rw [show (s.added conn').wmap conn' = s.wmap conn' from rfl, hnone] at hw'
      cases hw'
    rw [isAuthenticating_congr (update_of_ne hne ..)]
    exact hx conn' a hw'
  | refused hc => exact absurd (hw.1 hc) (by decide)
  | @requested conn sent m hc =>
    cases sent with
    | false => exact absurd (hw.1 hc) (by decide)
    | true =>
      intro conn' a hw'
      by_cases hne : conn' = conn
      · rw [hne]
        exact isAuthenticating_of_conns (.inr ⟨_, @agNSetHandler_conns_self (s.newRpc now conn) conn _ _ false hc⟩)
      · have hkeep : (s.authserverAuth now conn true).conns conn' = s.conns conn' := update_of_ne hne ..
        rw [isAuthenticating_congr hkeep]
        exact hx conn' a hw'
  | @served conn a auth m c s' ht hc hconn hs =>
    have hm := hw.2 (by rw [ht]; exact some_ne_none a)
    refine hs.exact h hc (fun world hflag => ?_) hx
    rw [hflag] at hm
    cases hm
  | closedAuth hc =>
    have ha := hw.1
    rw [isAuthenticating_of_conns (.inl hc)] at ha
    cases ha
  | closedRequest hc =>
    have ha := hw.1
    rw [isAuthenticating_of_conns (.inr ⟨_, hc⟩)] at ha
    cases ha
  | closedSession ht hc hconn =>
    have hnone := hw.2
    rw [ht] at hnone
    cases hnone
  | dropped hr hconn => exact hx
  | @failed sn conn result r hr hconn hresult =>
    have hidle : s.isAuthenticating conn = false := by
      have hrw := hw conn (by rw [hr]; exact hconn)
      cases result with
      | pass pid first => exact absurd rfl (hresult pid first)
      | fail => exact hrw
      | noAccount => exact hrw
    exact @agNClose_exact s .closed conn hx hidle
  | @passed sn conn pid a first r c s₁ s' hr hconn htaken hs =>
    obtain ⟨ha, -, htakes⟩ := hb conn (by rw [hr]; exact hconn)
    obtain ⟨h₁, hc, hidle, ha₁, -⟩ := htaken.linked h ha htakes
    have hx₁ : s₁.Exact := by
      cases htaken with
      | new hash hnew =>
        obtain ⟨-, rfl⟩ := clientNew_eq hnew
        exact hx
      | old hash hold =>
        exact startAuth_exact h.indexed (h.waitless hold)
          (conns_of_translating (h.bound a c hold (some_ne_none a))) hx
    have hbound : (s₁.bind conn a c).Exact := by
      intro conn' b hw'
      obtain ⟨hne, hw'⟩ := of_update_none hw'
      rw [isAuthenticating_congr (bind_conns_of_ne hne)]
      exact hx₁ conn' b hw'
    have hm : first.isUnknownFlag = false := hw conn (by rw [hr]; exact hconn)
    have hexact := hs.exact (bind_linked h₁ hc hidle ha₁) (update_self ..) (fun world hflag => by
      rw [hflag] at hm
      cases hm) hbound
    exact hexact
  | timedOut => exact timeoutLoop_exact now s.rpcs hx hw
  | @kicked pid a c hc =>
    exact @agNClose_exact s .world c.conn hx (not_isAuthenticating (h.bound a c hc (some_ne_none a)))
  | cleaned =>
    intro conn a hw'
    rw [cleanClient_isAuthenticating]
    exact hx conn a hw'

theorem Linked.waitingExact (h : Linked none none s) (hx : s.Exact) : s.WaitingExact where
  map := fun conn => ⟨fun ha => h.waits conn ha (fun hn => nomatch hn), fun ⟨a, hw⟩ => hx conn a hw⟩
  queue := h.indexed.queue
  once := by
    refine Nodup.map_on (fun w hw w' hw' hconn => ?_) (h.indexed.nodup.of_map _)
    have hmap := (h.indexed.queue _ _).mpr ⟨w, hw, rfl, rfl⟩
    have hmap' := (h.indexed.queue _ _).mpr ⟨w', hw', rfl, rfl⟩
    rw [hconn, hmap'] at hmap
    exact inj_on_of_nodup_map h.indexed.nodup hw hw' (some.inj hmap).symm

theorem outcome_of_step {e : ℕ × GatewayEvent} {s' : Sessions} (h : Linked none none s) (hb : s.Binds e)
    (hs : s.step e = .ok s') : Outcome e.1 s e.2 s' := by
  obtain ⟨s₁, hs₁, ho⟩ := step_outcome h hb
  rw [← ok_unique hs₁ hs]
  exact ho

/-- The table alone: the peers may close their connections at any time. -/
theorem sessions_bound (events : List (ℕ × GatewayEvent)) (hrun : Along step Binds init events) :
    (∃ s, run step init events = .ok s) ∧ Throughout step Bound init events := by
  have hstep : ∀ s e, Linked none none s → s.Binds e → ∃ s', s.step e = .ok s' ∧ Linked none none s' := by
    intro s e h hb
    obtain ⟨s', hs', ho⟩ := step_outcome h hb
    exact ⟨s', hs', ho.linked h hb⟩
  obtain ⟨s, hs, -⟩ := run_ok hstep events init init_linked hrun
  refine ⟨⟨s, hs⟩, run_throughout (fun s h => h.isBound) (fun s e s' h hb hs' => ?_) events init init_linked hrun⟩
  exact (outcome_of_step h hb hs').linked h hb

/-- A run that meets none of the slips goes on, client records and translating connections are bound to each other, and
the waiting list holds the connections that authenticate, once each, and no other. -/
theorem session_bindings (events : List (ℕ × GatewayEvent))
    (hrun : Along step (fun s e => s.Binds e ∧ s.Waits e) init events) :
    (∃ s, run step init events = .ok s) ∧ Throughout step (fun s => s.Bound ∧ s.WaitingExact) init events := by
  have hinit : Linked none none init ∧ init.Exact := ⟨init_linked, fun _ _ hw => nomatch hw⟩
  have hkeep : ∀ s e s', Linked none none s ∧ s.Exact → s.Binds e ∧ s.Waits e → s.step e = .ok s' →
      Linked none none s' ∧ s'.Exact := by
    intro s e s' h hg hs'
    have ho := outcome_of_step h.1 hg.1 hs'
    exact ⟨ho.linked h.1 hg.1, ho.exact h.1 h.2 hg.1 hg.2⟩
  have hgood : ∀ s : Sessions, Linked none none s ∧ s.Exact → s.Bound ∧ s.WaitingExact :=
    fun s h => ⟨h.1.isBound, h.1.waitingExact h.2⟩
  exact ⟨(sessions_bound events (hrun.imp fun _ _ hg => hg.1)).1, run_throughout hgood hkeep events init hinit hrun⟩

theorem session_bindings_takeover :
    Throughout step (fun s => s.Bound ∧ s.WaitingExact) init
      [(0, .accept 1), (1, .message 1 (.login true) .incomplete), (1, .authRespond 1 (.pass 7 (.toWorld false .sent))),
        (2, .accept 2), (3, .message 2 (.login true) .incomplete), (3, .authRespond 2 (.pass 8 (.toWorld false .sent))),
        (4, .accept 3), (4, .message 3 (.login true) .incomplete), (5, .authRespond 3 (.pass 7 (.toWorld false .sent))),
        (6, .world 8 .logout), (6, .cleanClient), (20, .accept 4)] := by
  refine (session_bindings _ ?_).2
  decide +kernel

theorem unbound_of_run {s s' : Sessions} {events : List (ℕ × GatewayEvent)} {a b : ℕ} {c d : ClientRecord}
    (hrun : run step s events = .ok s') (hc : s'.clients a = some c) (hd : s'.clients b = some d)
    (hconn : c.conn = d.conn) (hne : a ≠ b) :
    ¬ Throughout step (fun s => s.Bound ∧ s.WaitingExact) s events := by
  intro h
  exact hne ((h.last hrun).1.distinct a b c d hc hd hconn)

/-- The world refuses the login of player 7, and his connection logs in as player 8: then both have it. -/
theorem refused_login_shares_connection :
    ¬ Throughout step (fun s => s.Bound ∧ s.WaitingExact) init
      [(0, .accept 1), (1, .message 1 (.login true) .incomplete), (1, .authRespond 1 (.pass 7 (.toWorld false .sent))),
        (2, .world 7 .loginFailed), (3, .message 1 (.login true) .incomplete),
        (3, .authRespond 2 (.pass 8 (.toWorld false .sent)))] :=
  unbound_of_run (a := 1) (b := 3) (c := ⟨1, 7, 0⟩) (d := ⟨1, 8, 0⟩) rfl rfl rfl rfl (by decide)

end CServer.Gateway.Sessions
