import CServer.Lib.Exec
import CServer.Lib.LuaArray
import CServer.Lib.Memory
import Mathlib.Data.Prod.Lex

/-! # `arena/RankManager.lua`: leaderboards

An entry is an object that `items` refers to by its id and `ranks` by its position. `setValue` moves an entry by shifting
its neighbours one position each, behind it if its value falls and in front of it if it rises. Ids, values and times are
of any ordered types.
-/
namespace CServer.Arena
open CServer.Lib Function List
open Option hiding mem_map or or_assoc

variable {I V T : Type} [LinearOrder I] [LinearOrder V] [Zero V] [LinearOrder T] [Zero T]

/-! ## The code -/

structure RankItem (I V T : Type) where
  id : I
  value : V
  rank : ℕ
  updateTime : T
  deriving DecidableEq, Repr

structure RankChange (I : Type) where
  id : I
  o : ℤ
  n : ℤ
  deriving DecidableEq, Repr

/-- `objects` is the memory of the entries and `fresh` an address that has not been used. -/
structure Rank (I V T : Type) where
  objects : ℕ → RankItem I V T
  items : I → Option ℕ
  ranks : LuaArray ℕ
  fresh : ℕ
  events : List (RankChange I)

/-- `_init_`. What unused memory holds is `junk`. -/
def Rank.init (junk : RankItem I V T) : Rank I V T := ⟨fun _ => junk, fun _ => none, ∅, 0, []⟩

variable (r : Rank I V T)

def Rank.getRank (id : I) : Option ℕ := (r.items id).map fun a => (r.objects a).rank

def Rank.add (id : I) : Except Fault (Rank I V T × ℕ) := do
  assert (r.items id).isNone
  let pos := r.ranks.maxn + 1
  .ok ({ r with
    objects := update r.objects r.fresh ⟨id, 0, pos, 0⟩
    items := update r.items id (some r.fresh)
    ranks := r.ranks.put pos (some r.fresh)
    fresh := r.fresh + 1 }, pos)

/-- `x` is better than `y`: the test of both loops of `setValue`. -/
def RankItem.Above (x y : RankItem I V T) : Prop :=
  y.value < x.value ∨ (y.value = x.value ∧ y.updateTime < x.updateTime) ∨
    (y.value = x.value ∧ y.updateTime = x.updateTime ∧ y.id < x.id)

instance (x y : RankItem I V T) : Decidable (x.Above y) := inferInstanceAs (Decidable (_ ∨ _ ∨ _))

def Rank.place (a : ℕ) (o : ℤ) (ite : ℕ) : Rank I V T :=
  { r with
    ranks := r.ranks.put ite (some a)
    events := r.events ++ [⟨(r.objects a).id, o, ite⟩]
    objects := update r.objects a { r.objects a with rank := ite } }

/-- The loop of `setValue` where the value has become less. -/
def Rank.sink (a : ℕ) : ℕ → ℕ → Rank I V T → Rank I V T
  | 0, _, r => r
  | fuel + 1, ite, r =>
    match r.ranks.get (ite + 1) with
    | none => r.place a (r.objects a).rank ite
    | some back =>
      if (r.objects a).Above (r.objects back) then r.place a (r.objects a).rank ite
      else sink a fuel (ite + 1) (r.place back ((ite : ℤ) + 1) ite)

/-- The loop of `setValue` where the value has become greater. -/
def Rank.rise (a : ℕ) : ℕ → Rank I V T → Rank I V T
  | 0, r => r
  | ite + 1, r =>
    match r.ranks.get ite with
    | none => r.place a (r.objects a).rank (ite + 1)
    | some front =>
      if (r.objects front).Above (r.objects a) then r.place a (r.objects a).rank (ite + 1)
      else rise a ite (r.place front ite (ite + 1))

def Rank.setItem (id : I) (value : V) (updateTime : T) (oldrank : ℕ) :
    Except Fault (Rank I V T × ℕ) :=
  match r.items id with
  | none => .error .outOfBounds
  | some a =>
    let item := r.objects a
    if value = item.value then .ok (r, item.rank)
    else
      let moved := { r with objects := update r.objects a { item with value, updateTime } }
      let r :=
        if value < item.value then moved.sink a (r.ranks.maxn + 1 - oldrank) oldrank else moved.rise a oldrank
      .ok (r, (r.objects a).rank)

def Rank.setValue (id : I) (value : V) (updateTime : T) : Except Fault (Rank I V T × ℕ) :=
  match r.getRank id with
  | some oldrank => r.setItem id value updateTime oldrank
  | none => do
    let (r, oldrank) ← r.add id
    r.setItem id value updateTime oldrank

def Rank.closeUp : ℕ → ℕ → Rank I V T → Rank I V T
  | 0, _, r => r
  | fuel + 1, ite, r =>
    match r.ranks.get (ite + 1) with
    | none => closeUp fuel (ite + 1) { r with ranks := r.ranks.put ite none }
    | some back => closeUp fuel (ite + 1) (r.place back ((ite : ℤ) - 1) ite)

def Rank.remove (id : I) : Rank I V T :=
  match r.items id with
  | none => r
  | some a =>
    let rank := (r.objects a).rank
    Rank.closeUp (r.ranks.maxn + 1 - rank) rank { r with items := update r.items id none }

def Rank.collect (count : ℤ) : List (I × V) → List (RankItem I V T) → List (I × V)
  | t, [] => t
  | t, guild :: rest => if (t.length : ℤ) + 1 > count then t else collect count (t ++ [(guild.id, guild.value)]) rest

def Rank.getTop (count : ℤ) : List (I × V) := Rank.collect count [] (r.ranks.ipairs.map r.objects)

/-! ## Runs -/

inductive RankCall (I V T : Type)
  | setValue (id : I) (value : V) (updateTime : T)
  | remove (id : I)

def rankStep : RankCall I V T → Except Fault (Rank I V T)
  | .setValue id value updateTime => do
    let (r, _) ← r.setValue id value updateTime
    .ok r
  | .remove id => .ok (r.remove id)

def RankCall.Nonneg : RankCall I V T → Prop
  | .setValue _ value _ => 0 ≤ value
  | .remove _ => True

/-- What the calls say of each id: the value that was set last and when it was set. -/
def scoreStep (scores : I → Option (V × T)) : RankCall I V T → I → Option (V × T)
  | .setValue id value updateTime =>
    let old := (scores id).getD (0, 0)
    update scores id (some (if value = old.1 then old else (value, updateTime)))
  | .remove id => update scores id none

/-! ## The order of the entries -/

def RankItem.key (x : RankItem I V T) : V ×ₗ T ×ₗ I := toLex (x.value, toLex (x.updateTime, x.id))

omit [Zero V] [Zero T] in
theorem RankItem.above_iff {x y : RankItem I V T} : x.Above y ↔ y.key < x.key := by
  rw [RankItem.Above, RankItem.key, RankItem.key, Prod.Lex.toLex_lt_toLex, Prod.Lex.toLex_lt_toLex]
  simp only [← and_or_left]

omit [Zero V] [Zero T] in
theorem RankItem.value_le {x y : RankItem I V T} (h : y.key < x.key) : y.value ≤ x.value := by
  rcases RankItem.above_iff.mpr h with h | h | h
  · exact h.le
  · exact h.1.le
  · exact h.1.le

omit [LinearOrder I] [LinearOrder V] [Zero V] [LinearOrder T] [Zero T] in
theorem RankItem.key_eq_iff {x y : RankItem I V T} :
    x.key = y.key ↔ x.value = y.value ∧ x.updateTime = y.updateTime ∧ x.id = y.id := by
  constructor
  · intro h
    obtain ⟨h1, h2⟩ := Prod.mk.inj (toLex.injective h)
    obtain ⟨h3, h4⟩ := Prod.mk.inj (toLex.injective h2)
    exact ⟨h1, h3, h4⟩
  · rintro ⟨h1, h2, h3⟩
    rw [RankItem.key, RankItem.key, h1, h2, h3]

def RankItem.Precedes (x y : RankItem I V T) : Prop := y.key < x.key ∨ y.value = 0

/-! ## Positions -/

def RankedFrom (objects : ℕ → RankItem I V T) (n : ℕ) (xs : List ℕ) : Prop :=
  ∀ i a, xs[i]? = some a → (objects a).rank = n + i + 1

section Positions
omit [LinearOrder I] [LinearOrder V] [Zero V] [LinearOrder T] [Zero T]

variable {objects : ℕ → RankItem I V T} {n : ℕ} {xs ys : List ℕ} {a : ℕ}

theorem rankedFrom_nil : RankedFrom objects n [] := fun i a h => by simp at h

theorem rankedFrom_cons : RankedFrom objects n (a :: xs) ↔ (objects a).rank = n + 1 ∧ RankedFrom objects (n + 1) xs := by
  constructor
  · intro h
    refine ⟨h 0 a rfl, fun i b hb => ?_⟩
    have := h (i + 1) b hb
    omega
  · rintro ⟨h1, h2⟩ i b hb
    cases i with
    | zero =>
      obtain rfl := some.inj hb
      exact h1
    | succ i =>
      have := h2 i b hb
      omega

theorem rankedFrom_append :
    RankedFrom objects n (xs ++ ys) ↔ RankedFrom objects n xs ∧ RankedFrom objects (n + xs.length) ys := by
  induction xs generalizing n with
  | nil => simp [rankedFrom_nil]
  | cons a xs ih =>
    have e : n + 1 + xs.length = n + (a :: xs).length := by simp only [length_cons]; omega
    rw [cons_append, rankedFrom_cons, rankedFrom_cons, ih, e, and_assoc]

theorem RankedFrom.update (h : RankedFrom objects n xs) (ha : a ∉ xs) (x : RankItem I V T) :
    RankedFrom (update objects a x) n xs := by
  intro i b hb
  have hne : b ≠ a := fun e => ha (e ▸ mem_of_getElem? hb)
  rw [update_of_ne hne]
  exact h i b hb

theorem RankedFrom.bounds (h : RankedFrom objects n xs) (ha : a ∈ xs) :
    n < (objects a).rank ∧ (objects a).rank ≤ n + xs.length := by
  obtain ⟨i, hi, rfl⟩ := getElem_of_mem ha
  have := h i _ (List.getElem?_eq_getElem hi)
  omega

theorem RankedFrom.nodup (h : RankedFrom objects n xs) : xs.Nodup := by
  refine List.nodup_iff_getElem?_ne_getElem?.mpr fun i j hij hj he => ?_
  have hi := h i _ (List.getElem?_eq_getElem (hij.trans hj))
  have hj' := h j _ (he ▸ List.getElem?_eq_getElem (hij.trans hj))
  omega

end Positions

structure Rank.Same (r r' : Rank I V T) : Prop where
  items : r'.items = r.items
  fresh : r'.fresh = r.fresh
  key : ∀ x, (r'.objects x).key = (r.objects x).key

section Moves
omit [LinearOrder I] [LinearOrder V] [Zero V] [LinearOrder T] [Zero T]

variable {r r' r'' : Rank I V T}

theorem Rank.Same.trans (h : r.Same r') (h' : r'.Same r'') : r.Same r'' :=
  ⟨h'.items.trans h.items, h'.fresh.trans h.fresh, fun x => (h'.key x).trans (h.key x)⟩

theorem Rank.place_same (r : Rank I V T) (a : ℕ) (o : ℤ) (ite : ℕ) : r.Same (r.place a o ite) := by
  refine ⟨rfl, rfl, fun x => ?_⟩
  show (update r.objects a { r.objects a with rank := ite } x).key = (r.objects x).key
  by_cases hx : x = a
  · rw [hx, update_self]
    rfl
  · rw [update_of_ne hx]

theorem Rank.place_rank (r : Rank I V T) (a : ℕ) (o : ℤ) (ite : ℕ) : ((r.place a o ite).objects a).rank = ite := by
  show (update r.objects a { r.objects a with rank := ite } a).rank = ite
  rw [update_self]

/-- Behind `pre` there is a gap, whatever the slot holds; the entries on both sides know their positions. -/
structure Rank.Open (r : Rank I V T) (pre : List ℕ) (y : ℕ) (post : List ℕ) : Prop where
  lists : r.ranks.Lists (pre ++ y :: post)
  front : RankedFrom r.objects 0 pre
  back : RankedFrom r.objects (pre.length + 1) post

variable {pre post : List ℕ} {y a b : ℕ}

theorem Rank.Open.fill (h : r.Open pre y post) (o : ℤ) (ha : a ∉ pre ++ post) :
    (r.place a o (pre.length + 1)).ranks.Lists (pre ++ a :: post) ∧
      RankedFrom (r.place a o (pre.length + 1)).objects 0 (pre ++ a :: post) := by
  rw [mem_append, not_or] at ha
  refine ⟨h.lists.put_at a, ?_⟩
  rw [rankedFrom_append, rankedFrom_cons, Nat.zero_add]
  exact ⟨h.front.update ha.1 _, r.place_rank a o _, h.back.update ha.2 _⟩

theorem Rank.Open.forward (h : r.Open pre y (b :: post)) (o : ℤ) :
    (r.place b o (pre.length + 1)).Open (pre ++ [b]) b post := by
  obtain ⟨hb, hback⟩ := rankedFrom_cons.mp h.back
  have hpre : b ∉ pre := fun hm => by have := h.front.bounds hm; omega
  have hpost : b ∉ post := fun hm => by have := hback.bounds hm; omega
  refine ⟨?_, ?_, ?_⟩
  · rw [append_assoc]
    exact h.lists.put_at b
  · rw [rankedFrom_append, rankedFrom_cons]
    exact ⟨h.front.update hpre _, by rw [Nat.zero_add]; exact r.place_rank b o _, rankedFrom_nil⟩
  · rw [length_append, length_singleton]
    exact hback.update hpost _

theorem Rank.Open.backward (h : r.Open (pre ++ [b]) y post) (o : ℤ) :
    (r.place b o (pre.length + 2)).Open pre b (b :: post) := by
  have hfront := h.front
  rw [rankedFrom_append, rankedFrom_cons, Nat.zero_add] at hfront
  have hback := h.back
  rw [length_append, length_singleton] at hback
  have hpre : b ∉ pre := fun hm => by have := hfront.1.bounds hm; omega
  have hpost : b ∉ post := fun hm => by have := hback.bounds hm; omega
  refine ⟨?_, hfront.1.update hpre _, ?_⟩
  · have hlists := h.lists.put_at b
    rw [length_append, length_singleton, append_assoc] at hlists
    exact hlists
  · exact rankedFrom_cons.mpr ⟨r.place_rank b o _, hback.update hpost _⟩

theorem Rank.closeUp_moves (post : List ℕ) :
    ∀ (pre : List ℕ) (y : ℕ) (r : Rank I V T), r.Open pre y post →
      (Rank.closeUp (post.length + 1) (pre.length + 1) r).ranks.Lists (pre ++ post) ∧
        RankedFrom (Rank.closeUp (post.length + 1) (pre.length + 1) r).objects 0 (pre ++ post) ∧
        r.Same (Rank.closeUp (post.length + 1) (pre.length + 1) r) := by
  induction post with
  | nil =>
    intro pre y r h
    have hnext : r.ranks.get (pre.length + 1 + 1) = none := h.lists.get_next
    have hclose : Rank.closeUp 1 (pre.length + 1) r = { r with ranks := r.ranks.put (pre.length + 1) none } := by
      rw [Rank.closeUp, hnext]
      rfl
    rw [length_nil, Nat.zero_add, hclose, append_nil]
    exact ⟨h.lists.pop, h.front, rfl, rfl, fun _ => rfl⟩
  | cons b post ih =>
    intro pre y r h
    have hnext : r.ranks.get (pre.length + 1 + 1) = some b := h.lists.get_next
    have hclose : Rank.closeUp (post.length + 1 + 1) (pre.length + 1) r =
        Rank.closeUp (post.length + 1) ((pre ++ [b]).length + 1)
          (r.place b (((pre.length + 1 : ℕ) : ℤ) - 1) (pre.length + 1)) := by
      rw [Rank.closeUp, hnext]
      simp only [length_append, length_singleton]
    obtain ⟨hlists, hranked, hsame⟩ := ih (pre ++ [b]) b _ (h.forward _)
    rw [append_assoc] at hlists hranked
    rw [length_cons, hclose]
    exact ⟨hlists, hranked, (r.place_same ..).trans hsame⟩

end Moves

/-! ## Moving an entry -/

section Loops
omit [Zero V] [Zero T]

theorem Rank.Same.above_iff {r r' : Rank I V T} (h : r.Same r') {x y : ℕ} :
    (r'.objects x).Above (r'.objects y) ↔ (r.objects x).Above (r.objects y) := by
  rw [RankItem.above_iff, RankItem.above_iff, h.key, h.key]

/-- By induction on what is behind the gap: the entry gets in front of the first one that it is better than. -/
theorem Rank.sink_moves (a : ℕ) (post : List ℕ) :
    ∀ (fuel : ℕ) (pre : List ℕ) (y : ℕ) (r : Rank I V T), r.Open pre y post → a ∉ pre ++ post → post.length < fuel →
      ∃ low high, post = low ++ high ∧ (∀ b ∈ low, ¬ (r.objects a).Above (r.objects b)) ∧
        (∀ b ∈ high.head?, (r.objects a).Above (r.objects b)) ∧
        (r.sink a fuel (pre.length + 1)).ranks.Lists (pre ++ low ++ a :: high) ∧
        RankedFrom (r.sink a fuel (pre.length + 1)).objects 0 (pre ++ low ++ a :: high) ∧
        r.Same (r.sink a fuel (pre.length + 1)) := by
  induction post with
  | nil =>
    intro fuel pre y r h ha hfuel
    obtain ⟨fuel, rfl⟩ := exists_succ_of_lt hfuel
    have hnext : r.ranks.get (pre.length + 1 + 1) = none := h.lists.get_next
    have hsink : r.sink a (fuel + 1) (pre.length + 1) = r.place a (r.objects a).rank (pre.length + 1) := by
      rw [Rank.sink, hnext]
    have hfill := h.fill (r.objects a).rank ha
    rw [hsink]
    exact ⟨[], [], rfl, by simp, by simp, by simpa using hfill.1, by simpa using hfill.2, r.place_same ..⟩
  | cons b post ih =>
    intro fuel pre y r h ha hfuel
    obtain ⟨fuel, rfl⟩ := exists_succ_of_lt hfuel
    have hnext : r.ranks.get (pre.length + 1 + 1) = some b := h.lists.get_next
    by_cases hab : (r.objects a).Above (r.objects b)
    · have hsink : r.sink a (fuel + 1) (pre.length + 1) = r.place a (r.objects a).rank (pre.length + 1) := by
        rw [Rank.sink, hnext]
        exact if_pos hab
      have hfill := h.fill (r.objects a).rank ha
      rw [hsink]
      exact ⟨[], b :: post, rfl, by simp, by simpa using hab, by simpa using hfill.1, by simpa using hfill.2,
        r.place_same ..⟩
    · have hsame := r.place_same b (((pre.length + 1 : ℕ) : ℤ) + 1) (pre.length + 1)
      have hsink : r.sink a (fuel + 1) (pre.length + 1) =
          (r.place b (((pre.length + 1 : ℕ) : ℤ) + 1) (pre.length + 1)).sink a fuel ((pre ++ [b]).length + 1) := by
        rw [Rank.sink, hnext]
        simp only [length_append, length_singleton]
        exact if_neg hab
      obtain ⟨low, high, hpost, hlow, hhigh, hlists, hranked, hsame'⟩ :=
        ih fuel (pre ++ [b]) b _ (h.forward _) (by rw [append_assoc]; exact ha) (by simpa using hfuel)
      rw [append_assoc, append_assoc] at hlists hranked
      rw [hsink]
      refine ⟨b :: low, high, by rw [hpost]; rfl, ?_, ?_, by simpa using hlists, by simpa using hranked,
        hsame.trans hsame'⟩
      · intro c hc
        rcases mem_cons.mp hc with rfl | hc
        · exact hab
        · rw [← hsame.above_iff]
          exact hlow c hc
      · intro c hc
        rw [← hsame.above_iff]
        exact hhigh c hc

theorem Rank.rise_moves (a : ℕ) (pre : List ℕ) :
    ∀ (post : List ℕ) (y : ℕ) (r : Rank I V T), r.Open pre y post → a ∉ pre ++ post →
      ∃ high low, pre = high ++ low ∧ (∀ b ∈ low, ¬ (r.objects b).Above (r.objects a)) ∧
        (∀ b ∈ high.getLast?, (r.objects b).Above (r.objects a)) ∧
        (r.rise a (pre.length + 1)).ranks.Lists (high ++ a :: (low ++ post)) ∧
        RankedFrom (r.rise a (pre.length + 1)).objects 0 (high ++ a :: (low ++ post)) ∧
        r.Same (r.rise a (pre.length + 1)) := by
  induction pre using List.reverseRecOn with
  | nil =>
    intro post y r h ha
    have hrise : r.rise a 1 = r.place a (r.objects a).rank 1 := by
      rw [Rank.rise, h.lists.1]
    have hfill := h.fill (r.objects a).rank ha
    rw [length_nil, hrise]
    exact ⟨[], [], rfl, by simp, by simp, hfill.1, hfill.2, r.place_same ..⟩
  | append_singleton pre b ih =>
    intro post y r h ha
    have hlists := h.lists
    rw [append_assoc] at hlists
    have hfront : r.ranks.get (pre ++ [b]).length = some b := by
      rw [length_append, length_singleton]
      exact hlists.get_at
    by_cases hba : (r.objects b).Above (r.objects a)
    · have hrise : r.rise a ((pre ++ [b]).length + 1) = r.place a (r.objects a).rank ((pre ++ [b]).length + 1) := by
        rw [Rank.rise, hfront]
        exact if_pos hba
      have hfill := h.fill (r.objects a).rank ha
      rw [hrise]
      exact ⟨pre ++ [b], [], by simp, by simp, by simpa using hba, hfill.1, hfill.2, r.place_same ..⟩
    · have hsame := r.place_same b ((pre ++ [b]).length : ℕ) ((pre ++ [b]).length + 1)
      have hrise : r.rise a ((pre ++ [b]).length + 1) =
          (r.place b ((pre ++ [b]).length : ℕ) ((pre ++ [b]).length + 1)).rise a (pre.length + 1) := by
        rw [Rank.rise, hfront]
        simp only [length_append, length_singleton]
        exact if_neg hba
      have hopen := h.backward ((pre ++ [b]).length : ℕ)
      have hlen : (pre ++ [b]).length + 1 = pre.length + 2 := by simp
      obtain ⟨high, low, hpre, hlow, hhigh, hlists', hranked, hsame'⟩ :=
        ih (b :: post) b _ (hlen ▸ hopen) (by simpa [or_assoc] using ha)
      rw [hrise]
      refine ⟨high, low ++ [b], by rw [hpre, append_assoc], ?_, ?_, by simpa using hlists', by simpa using hranked,
        hsame.trans hsame'⟩
      · intro c hc
        rcases mem_append.mp hc with hc | hc
        · rw [← hsame.above_iff]
          exact hlow c hc
        · rw [mem_singleton.mp hc]
          exact hba
      · intro c hc
        rw [← hsame.above_iff]
        exact hhigh c hc

end Loops

/-! ## The entries in order -/

def Rank.entry (id : I) : Option (V × T) :=
  (r.items id).map fun a => ((r.objects a).value, (r.objects a).updateTime)

structure Rank.Holds (r : Rank I V T) (xs : List ℕ) : Prop where
  items : ∀ id a, r.items id = some a ↔ a ∈ xs ∧ (r.objects a).id = id
  fresh : ∀ a ∈ xs, a < r.fresh
  nonneg : ∀ a ∈ xs, 0 ≤ (r.objects a).value

structure Rank.Ranked (r : Rank I V T) (xs : List ℕ) : Prop extends r.Holds xs where
  lists : r.ranks.Lists xs
  positions : RankedFrom r.objects 0 xs
  sorted : xs.Pairwise fun x y => (r.objects x).Precedes (r.objects y)

section Ranked
variable {r r' : Rank I V T} {xs ys : List ℕ} {a : ℕ} {id : I}

omit [LinearOrder I] [LinearOrder V] [Zero V] [LinearOrder T] [Zero T] in
theorem Rank.Same.entry (h : r.Same r') : r'.entry = r.entry := by
  funext id
  rw [Rank.entry, Rank.entry, h.items]
  congr 1
  funext a
  obtain ⟨h1, h2, -⟩ := RankItem.key_eq_iff.mp (h.key a)
  rw [h1, h2]

omit [Zero T]

omit [LinearOrder I] [LinearOrder T] in
theorem Rank.Holds.id_inj (h : r.Holds xs) {b : ℕ} (ha : a ∈ xs) (hb : b ∈ xs)
    (hid : (r.objects a).id = (r.objects b).id) : a = b := by
  have h1 := (h.items _ a).mpr ⟨ha, rfl⟩
  have h2 := (h.items _ b).mpr ⟨hb, hid.symm⟩
  exact some_unique h1 h2

theorem Rank.Holds.reorder (h : r.Holds xs) (hsame : r.Same r') (hperm : ys.Perm xs) (hlists : r'.ranks.Lists ys)
    (hpos : RankedFrom r'.objects 0 ys) (hsorted : ys.Pairwise fun x y => (r.objects x).Precedes (r.objects y)) :
    r'.Ranked ys := by
  have hkey : ∀ x, (r'.objects x).value = (r.objects x).value ∧ (r'.objects x).id = (r.objects x).id := fun x =>
    have hx := RankItem.key_eq_iff.mp (hsame.key x)
    ⟨hx.1, hx.2.2⟩
  refine ⟨⟨fun id a => ?_, fun a ha => ?_, fun a ha => ?_⟩, hlists, hpos, hsorted.imp fun {x y} hxy => ?_⟩
  · rw [hsame.items, (hkey a).2, hperm.mem_iff]
    exact h.items id a
  · rw [hsame.fresh]
    exact h.fresh a (hperm.mem_iff.mp ha)
  · rw [(hkey a).1]
    exact h.nonneg a (hperm.mem_iff.mp ha)
  · unfold RankItem.Precedes at hxy ⊢
    rw [hsame.key, hsame.key, (hkey y).1]
    exact hxy

theorem sorted_sink {objects : ℕ → RankItem I V T} {pre low high : List ℕ} (hsorted : (pre ++ (low ++ high)).Pairwise
      fun x y => (objects x).Precedes (objects y))
    (hpre : ∀ x ∈ pre, (objects x).Precedes (objects a)) (hne : ∀ b ∈ low, (objects b).key ≠ (objects a).key)
    (hlow : ∀ b ∈ low, ¬ (objects a).Above (objects b)) (hhigh : ∀ b ∈ high.head?, (objects a).Above (objects b)) :
    (pre ++ low ++ a :: high).Pairwise fun x y => (objects x).Precedes (objects y) := by
  refine pairwise_between (by rw [append_assoc]; exact hsorted) ?_ ?_
  · intro x hx
    rcases mem_append.mp hx with hx | hx
    · exact hpre x hx
    · have hle := not_lt.mp fun h => hlow x hx (RankItem.above_iff.mpr h)
      exact .inl (lt_of_le_of_ne hle (hne x hx).symm)
  · intro c hc
    cases high with
    | nil => exact nomatch hc
    | cons b high =>
      have hb := RankItem.above_iff.mp (hhigh b rfl)
      rcases mem_cons.mp hc with rfl | hc
      · exact .inl hb
      · have hrest := (pairwise_append.mp (pairwise_append.mp hsorted).2.1).2.1
        rcases (pairwise_cons.mp hrest).1 c hc with h | h
        · exact .inl (h.trans hb)
        · exact .inr h

theorem sorted_rise {objects : ℕ → RankItem I V T} {high low post : List ℕ} (hsorted : (high ++ low ++ post).Pairwise
      fun x y => (objects x).Precedes (objects y))
    (hpost : ∀ x ∈ post, (objects a).Precedes (objects x)) (hne : ∀ b ∈ low, (objects b).key ≠ (objects a).key)
    (hpos : 0 < (objects a).value) (hlow : ∀ b ∈ low, ¬ (objects b).Above (objects a))
    (hhigh : ∀ b ∈ high.getLast?, (objects b).Above (objects a)) :
    (high ++ a :: (low ++ post)).Pairwise fun x y => (objects x).Precedes (objects y) := by
  rw [append_assoc] at hsorted
  refine pairwise_between hsorted ?_ ?_
  · intro x hx
    rcases eq_nil_or_concat high with rfl | ⟨front, b, rfl⟩
    · exact nomatch hx
    · have hb := RankItem.above_iff.mp (hhigh b (by simp))
      have hbpos : 0 < (objects b).value := hpos.trans_le (RankItem.value_le hb)
      rw [concat_eq_append] at hx hsorted
      rcases mem_append.mp hx with hx | hx
      · have hfront := (pairwise_append.mp (pairwise_append.mp hsorted).1).2.2 x hx b mem_cons_self
        rcases hfront with h | h
        · exact .inl (hb.trans h)
        · exact absurd h hbpos.ne'
      · rw [mem_singleton.mp hx]
        exact .inl hb
  · intro c hc
    rcases mem_append.mp hc with hc | hc
    · have hle := not_lt.mp fun h => hlow c hc (RankItem.above_iff.mpr h)
      exact .inl (lt_of_le_of_ne hle (hne c hc))
    · exact hpost c hc

def Rank.assign (r : Rank I V T) (a : ℕ) (value : V) (updateTime : T) : Rank I V T :=
  { r with objects := update r.objects a { r.objects a with value, updateTime } }

variable {pre post : List ℕ} {value : V} {updateTime : T}

section Assign
omit [LinearOrder I] [LinearOrder V] [Zero V] [LinearOrder T]

theorem Rank.assign_self : (r.assign a value updateTime).objects a = { r.objects a with value, updateTime } :=
  update_self ..

theorem Rank.assign_of_ne {b : ℕ} (h : b ≠ a) : (r.assign a value updateTime).objects b = r.objects b := update_of_ne h ..

theorem Rank.assign_id (b : ℕ) : ((r.assign a value updateTime).objects b).id = (r.objects b).id := by
  by_cases hba : b = a
  · rw [hba, Rank.assign_self]
  · rw [Rank.assign_of_ne hba]

end Assign

omit [LinearOrder I] [LinearOrder T] in
theorem Rank.Holds.assign (h : r.Holds xs) (hvalue : 0 ≤ value) (a : ℕ) : (r.assign a value updateTime).Holds xs := by
  refine ⟨fun id b => ?_, h.fresh, fun b hb => ?_⟩
  · rw [Rank.assign_id]
    exact h.items id b
  · by_cases hba : b = a
    · rw [hba, Rank.assign_self]
      exact hvalue
    · rw [Rank.assign_of_ne hba]
      exact h.nonneg b hb

theorem Rank.Ranked.move (h : r.Ranked xs) (ha : r.items id = some a) (hvalue : 0 ≤ value)
    (hne : value ≠ (r.objects a).value) (updateTime : T) :
    ∃ ys, (if value < (r.objects a).value then
        (r.assign a value updateTime).sink a (r.ranks.maxn + 1 - (r.objects a).rank) (r.objects a).rank
      else (r.assign a value updateTime).rise a (r.objects a).rank).Ranked ys ∧
      (r.assign a value updateTime).Same (if value < (r.objects a).value then
        (r.assign a value updateTime).sink a (r.ranks.maxn + 1 - (r.objects a).rank) (r.objects a).rank
      else (r.assign a value updateTime).rise a (r.objects a).rank) := by
  obtain ⟨pre, post, rfl⟩ := append_of_mem ((h.items id a).mp ha).1
  have hholds : (r.assign a value updateTime).Holds (pre ++ a :: post) := h.toHolds.assign hvalue a
  have hpos := h.positions
  rw [rankedFrom_append, rankedFrom_cons, Nat.zero_add] at hpos
  obtain ⟨hfront, hrank, hback⟩ := hpos
  have hnodup := h.positions.nodup
  rw [nodup_middle, nodup_cons] at hnodup
  have hnot := hnodup.1
  have hout : a ∉ pre ∧ a ∉ post := by rwa [mem_append, not_or] at hnot
  -- the other entries are as they were
  have hother : ∀ x, x ≠ a → (r.assign a value updateTime).objects x = r.objects x :=
    fun x hx => Rank.assign_of_ne hx
  have hkey : ((r.assign a value updateTime).objects a).value = value := by rw [Rank.assign_self]
  have hopen : (r.assign a value updateTime).Open pre a post :=
    ⟨h.lists, hfront.update hout.1 _, hback.update hout.2 _⟩
  have hsorted := h.sorted
  rw [pairwise_append, pairwise_cons] at hsorted
  obtain ⟨hs1, ⟨hs2, hs3⟩, hs4⟩ := hsorted
  have hrest : (pre ++ post).Pairwise fun x y => ((r.assign a value updateTime).objects x).Precedes
      ((r.assign a value updateTime).objects y) := by
    have hold : (pre ++ post).Pairwise fun x y => (r.objects x).Precedes (r.objects y) :=
      pairwise_append.mpr ⟨hs1, hs3, fun x hx y hy => hs4 x hx y (mem_cons_of_mem a hy)⟩
    refine hold.imp_of_mem fun {x y} hx hy hxy => ?_
    rw [hother x fun e => hnot (e ▸ hx), hother y fun e => hnot (e ▸ hy)]
    exact hxy
  have hids : ∀ b ∈ pre ++ a :: post, b ≠ a →
      ((r.assign a value updateTime).objects b).key ≠ ((r.assign a value updateTime).objects a).key := by
    intro b hb hba he
    exact hba (hholds.id_inj hb (by simp) (RankItem.key_eq_iff.mp he).2.2)
  generalize hm : r.assign a value updateTime = moved at hholds hother hkey hopen hrest hids ⊢
  rw [hrank, h.lists.maxn]
  have hfuel : (pre ++ a :: post).length + 1 - (pre.length + 1) = post.length + 1 := by
    rw [length_append, length_cons]
    omega
  rw [hfuel]
  by_cases hlt : value < (r.objects a).value
  · rw [if_pos hlt]
    obtain ⟨low, high, rfl, hlow, hhigh, hlists, hranked, hsame⟩ :=
      Rank.sink_moves a post _ pre a moved hopen hnot (Nat.lt_succ_self _)
    refine ⟨_, hholds.reorder hsame ?_ hlists hranked (sorted_sink hrest ?_ ?_ hlow hhigh), hsame⟩
    · rw [append_assoc]
      exact Perm.append_left pre perm_middle
    · -- those in front have at least the old value
      intro x hx
      rw [hother x fun e => hout.1 (e ▸ hx)]
      refine .inl (RankItem.above_iff.mp (.inl ?_))
      rw [hkey]
      rcases hs4 x hx a mem_cons_self with hxa | h0
      · exact hlt.trans_le (RankItem.value_le hxa)
      · exact absurd (hlt.trans_eq h0) (not_lt.mpr hvalue)
    · intro b hb
      exact hids b (by simp [hb]) fun e => hout.2 (by simp [← e, hb])
  · rw [if_neg hlt]
    have hgt : (r.objects a).value < value := lt_of_le_of_ne (not_lt.mp hlt) hne.symm
    have hpos : 0 < value := (h.nonneg a (by simp)).trans_lt hgt
    obtain ⟨high, low, rfl, hlow, hhigh, hlists, hranked, hsame⟩ :=
      Rank.rise_moves a pre post a moved hopen hnot
    refine ⟨_, hholds.reorder hsame ?_ hlists hranked (sorted_rise hrest ?_ ?_ (by rw [hkey]; exact hpos) hlow hhigh),
      hsame⟩
    · rw [append_assoc]
      exact Perm.append_left high perm_middle.symm
    · -- those behind have at most the old value
      intro x hx
      rw [hother x fun e => hout.2 (e ▸ hx)]
      rcases hs2 x hx with hxa | h0
      · refine .inl (RankItem.above_iff.mp (.inl ?_))
        rw [hkey]
        exact (RankItem.value_le hxa).trans_lt hgt
      · exact .inr h0
    · intro b hb
      exact hids b (by simp [hb]) fun e => hout.1 (by simp [← e, hb])

omit [LinearOrder T] in
theorem Rank.entry_assign (h : r.Holds xs) (ha : r.items id = some a) :
    (r.assign a value updateTime).entry = update r.entry id (some (value, updateTime)) := by
  funext id'
  rw [Rank.entry]
  show (r.items id').map (fun b => (((r.assign a value updateTime).objects b).value,
    ((r.assign a value updateTime).objects b).updateTime)) = _
  by_cases hid : id' = id
  · rw [hid, update_self, ha, map_some, Rank.assign_self]
  · rw [update_of_ne hid, Rank.entry]
    cases hb : r.items id' with
    | none => rfl
    | some b =>
      have hba : b ≠ a := by
        rintro rfl
        exact hid (((h.items id' b).mp hb).2.symm.trans ((h.items id b).mp ha).2)
      rw [map_some, map_some, Rank.assign_of_ne hba]

end Ranked

/-! ## The calls -/

section Calls
variable {r r' : Rank I V T} {xs : List ℕ} {a : ℕ} {id : I} {value : V} {updateTime : T}

theorem Rank.Ranked.add (h : r.Ranked xs) (hid : r.items id = none) :
    ∃ r', r.add id = .ok (r', xs.length + 1) ∧ r'.Ranked (xs ++ [r.fresh]) ∧ r'.items id = some r.fresh ∧
      r'.entry = update r.entry id (some (0, 0)) ∧ r'.objects r.fresh = ⟨id, 0, xs.length + 1, 0⟩ := by
  have hnot : r.fresh ∉ xs := fun hm => lt_irrefl _ (h.fresh _ hm)
  have hother : ∀ x ∈ xs, update r.objects r.fresh ⟨id, 0, xs.length + 1, 0⟩ x = r.objects x :=
    fun x hx => update_of_ne (fun e => hnot (by rw [← e]; exact hx)) ..
  have hadd : r.add id = .ok ({ r with
      objects := update r.objects r.fresh ⟨id, 0, xs.length + 1, 0⟩
      items := update r.items id (some r.fresh)
      ranks := r.ranks.put (xs.length + 1) (some r.fresh)
      fresh := r.fresh + 1 }, xs.length + 1) := by
    rw [Rank.add, hid, h.lists.maxn]
    rfl
  refine ⟨_, hadd, ⟨⟨fun id' b => ?_, fun b hb => ?_, fun b hb => ?_⟩, h.lists.push _, ?_, ?_⟩, update_self .., ?_,
    update_self ..⟩
  · show update r.items id (some r.fresh) id' = some b ↔
      b ∈ xs ++ [r.fresh] ∧ (update r.objects r.fresh ⟨id, 0, xs.length + 1, 0⟩ b).id = id'
    by_cases hb : b = r.fresh
    · rw [hb, update_self]
      by_cases hid' : id' = id
      · simp [hid', update_self]
      · rw [update_of_ne hid', h.items]
        simp [hnot, Ne.symm hid']
    · rw [update_of_ne hb]
      by_cases hid' : id' = id
      · subst hid'
        have hnone : ¬ (b ∈ xs ∧ (r.objects b).id = id') := by
          rw [← h.items, hid]
          exact nofun
        rw [update_self]
        simp only [some.injEq, mem_append, mem_singleton, hb, or_false]
        exact iff_of_false (Ne.symm hb) hnone
      · rw [update_of_ne hid', h.items]
        simp [hb]
  · rcases mem_append.mp hb with hb | hb
    · exact Nat.lt_succ_of_lt (h.fresh b hb)
    · rw [mem_singleton.mp hb]
      exact Nat.lt_succ_self _
  · show 0 ≤ (update r.objects r.fresh ⟨id, 0, xs.length + 1, 0⟩ b).value
    rcases mem_append.mp hb with hb | hb
    · rw [hother b hb]
      exact h.nonneg b hb
    · rw [mem_singleton.mp hb, update_self]
  · refine rankedFrom_append.mpr ⟨h.positions.update hnot _, rankedFrom_cons.mpr ⟨?_, rankedFrom_nil⟩⟩
    show (update r.objects r.fresh ⟨id, 0, xs.length + 1, 0⟩ r.fresh).rank = _
    rw [update_self, Nat.zero_add]
  · refine pairwise_append.mpr ⟨h.sorted.imp_of_mem fun {x y} hx hy hxy => ?_, pairwise_singleton _ _,
      fun x _ y hy => .inr ?_⟩
    · show RankItem.Precedes (update r.objects r.fresh ⟨id, 0, xs.length + 1, 0⟩ x)
        (update r.objects r.fresh ⟨id, 0, xs.length + 1, 0⟩ y)
      rw [hother x hx, hother y hy]
      exact hxy
    · show (update r.objects r.fresh ⟨id, 0, xs.length + 1, 0⟩ y).value = 0
      rw [mem_singleton.mp hy, update_self]
  · funext id'
    show (update r.items id (some r.fresh) id').map (fun b =>
      ((update r.objects r.fresh ⟨id, 0, xs.length + 1, 0⟩ b).value,
        (update r.objects r.fresh ⟨id, 0, xs.length + 1, 0⟩ b).updateTime)) = _
    by_cases hid' : id' = id
    · rw [hid', update_self, update_self, map_some, update_self]
    · rw [update_of_ne hid', update_of_ne hid', Rank.entry]
      cases hb : r.items id' with
      | none => rfl
      | some b => rw [map_some, map_some, hother b ((h.items id' b).mp hb).1]

theorem Rank.Ranked.setItem (h : r.Ranked xs) (ha : r.items id = some a) (hvalue : 0 ≤ value) (updateTime : T) :
    ∃ r' rank ys, r.setItem id value updateTime (r.objects a).rank = .ok (r', rank) ∧ r'.Ranked ys ∧
      r'.entry = scoreStep r.entry (.setValue id value updateTime) := by
  have hentry : r.entry id = some ((r.objects a).value, (r.objects a).updateTime) := by rw [Rank.entry, ha, map_some]
  rw [Rank.setItem, ha, scoreStep, hentry]
  by_cases hsame : value = (r.objects a).value
  · refine ⟨r, (r.objects a).rank, xs, if_pos hsame, h, ?_⟩
    simp only [getD_some, if_pos hsame]
    rw [← hentry, update_eq_self]
  · obtain ⟨ys, hranked, hmoved⟩ := h.move ha hvalue hsame updateTime
    refine ⟨_, _, ys, if_neg hsame, hranked, ?_⟩
    simp only [getD_some, if_neg hsame]
    exact hmoved.entry.trans (Rank.entry_assign h.toHolds ha)

theorem Rank.Ranked.setValue (h : r.Ranked xs) (id : I) (hvalue : 0 ≤ value) (updateTime : T) :
    ∃ r' rank ys, r.setValue id value updateTime = .ok (r', rank) ∧ r'.Ranked ys ∧
      r'.entry = scoreStep r.entry (.setValue id value updateTime) := by
  rw [Rank.setValue, Rank.getRank]
  cases ha : r.items id with
  | some a => exact h.setItem ha hvalue updateTime
  | none =>
    obtain ⟨r₁, hadd, h₁, ha₁, hentry₁, hobj⟩ := h.add ha
    obtain ⟨r', rank, ys, hset, h', hentry'⟩ := h₁.setItem ha₁ hvalue updateTime
    rw [hobj] at hset
    refine ⟨r', rank, ys, ?_, h', ?_⟩
    · rw [map_none]
      simp only [hadd, ok_bind]
      exact hset
    · -- an entry that has just been added is one whose value is 0
      have hnone : r.entry id = none := by rw [Rank.entry, ha, map_none]
      rw [hentry', hentry₁, scoreStep, scoreStep, hnone, update_self, update_idem]
      rfl

theorem Rank.Ranked.remove (h : r.Ranked xs) (id : I) :
    ∃ ys, (r.remove id).Ranked ys ∧ (r.remove id).entry = scoreStep r.entry (.remove id) := by
  cases ha : r.items id with
  | none =>
    have hnone : r.entry id = none := by rw [Rank.entry, ha, map_none]
    have hremove : r.remove id = r := by rw [Rank.remove, ha]
    rw [hremove, scoreStep, ← hnone, update_eq_self]
    exact ⟨xs, h, rfl⟩
  | some a =>
    obtain ⟨hmem, hid⟩ := (h.items id a).mp ha
    obtain ⟨pre, post, rfl⟩ := append_of_mem hmem
    have hpos := h.positions
    rw [rankedFrom_append, rankedFrom_cons, Nat.zero_add] at hpos
    have hnodup := h.positions.nodup
    rw [nodup_middle, nodup_cons] at hnodup
    have hfuel : (pre ++ a :: post).length + 1 - (pre.length + 1) = post.length + 1 := by
      rw [length_append, length_cons]
      omega
    have hremove : r.remove id =
        Rank.closeUp (post.length + 1) (pre.length + 1) { r with items := update r.items id none } := by
      rw [Rank.remove, ha]
      simp only [hpos.2.1, h.lists.maxn, hfuel]
    obtain ⟨hlists, hranked, hsame⟩ :=
      Rank.closeUp_moves post pre a { r with items := update r.items id none } ⟨h.lists, hpos.1, hpos.2.2⟩
    have hholds : Rank.Holds { r with items := update r.items id none } (pre ++ post) := by
      refine ⟨fun id' b => ?_, fun b hb => h.fresh b ?_, fun b hb => h.nonneg b ?_⟩
      · show update r.items id none id' = some b ↔ b ∈ pre ++ post ∧ (r.objects b).id = id'
        by_cases hid' : id' = id
        · rw [hid', update_self]
          refine iff_of_false nofun fun ⟨hb, hbid⟩ => hnodup.1 ?_
          rwa [← h.id_inj (perm_middle.mem_iff.mpr (mem_cons_of_mem a hb)) hmem (hbid.trans hid.symm)]
        · rw [update_of_ne hid', h.items, perm_middle.mem_iff, mem_cons]
          refine and_congr_left fun hb => or_iff_right fun hba => hid' ?_
          rw [← hb, hba, hid]
      · exact perm_middle.mem_iff.mpr (mem_cons_of_mem a hb)
      · exact perm_middle.mem_iff.mpr (mem_cons_of_mem a hb)
    have hsorted : (pre ++ post).Pairwise fun x y => (r.objects x).Precedes (r.objects y) :=
      h.sorted.sublist (Sublist.append_left (sublist_cons_self a post) pre)
    rw [hremove]
    refine ⟨pre ++ post, hholds.reorder hsame (List.Perm.refl _) hlists hranked hsorted, ?_⟩
    rw [hsame.entry]
    funext id'
    show (update r.items id none id').map (fun b => ((r.objects b).value, (r.objects b).updateTime)) = _
    by_cases hid' : id' = id
    · rw [hid', scoreStep, update_self, update_self, map_none]
    · rw [update_of_ne hid', scoreStep, update_of_ne hid', Rank.entry]

end Calls

/-! ## Leaderboards -/

/-- The tables hold the entries with these values and times, each at its position, the better ones first. -/
structure Rank.Ordered (r : Rank I V T) (scores : I → Option (V × T)) : Prop where
  same : ∀ a, (∃ i, r.ranks.get i = some a) ↔ ∃ id, r.items id = some a
  scores : r.entry = scores
  no_gaps : ∀ i, (r.ranks.get i).isSome ↔ 1 ≤ i ∧ i ≤ r.ranks.maxn
  rank_eq : ∀ i a, r.ranks.get i = some a → (r.objects a).rank = i
  value_le : ∀ i j a b, i < j → r.ranks.get i = some a → r.ranks.get j = some b →
    (r.objects b).value ≤ (r.objects a).value
  above : ∀ i j a b, i < j → r.ranks.get i = some a → r.ranks.get j = some b → 0 < (r.objects b).value →
    (r.objects a).Above (r.objects b)
  getRank_iff : ∀ id i, r.getRank id = some i ↔ ∃ a, r.ranks.get i = some a ∧ (r.objects a).id = id
  getTop : ∀ count i : ℕ, (r.getTop count)[i]? =
    if i < count then (r.ranks.get (i + 1)).map fun a => ((r.objects a).id, (r.objects a).value) else none

omit [LinearOrder I] [LinearOrder V] [Zero V] [LinearOrder T] [Zero T] in
theorem collect_eq (count : ℕ) (rest : List (RankItem I V T)) :
    ∀ t : List (I × V), t.length ≤ count →
      Rank.collect count t rest = t ++ (rest.take (count - t.length)).map fun x => (x.id, x.value) := by
  induction rest with
  | nil => exact fun t _ => by simp [Rank.collect]
  | cons guild rest ih =>
    intro t ht
    rw [Rank.collect]
    by_cases hfull : (t.length : ℤ) + 1 > count
    · have h0 : count - t.length = 0 := by omega
      rw [if_pos hfull, h0]
      simp
    · obtain ⟨k, hk⟩ : ∃ k, count - t.length = k + 1 := ⟨count - t.length - 1, by omega⟩
      have hk' : count - (t.length + 1) = k := by omega
      rw [if_neg hfull, ih _ (by rw [length_append, length_singleton]; omega), length_append,
        length_singleton, hk, hk', take_succ_cons, map_cons, append_assoc]
      rfl

section Ordered
variable {r : Rank I V T} {xs : List ℕ}
omit [Zero T]

theorem Rank.Ranked.get_iff (h : r.Ranked xs) {i a : ℕ} : r.ranks.get i = some a ↔ ∃ j, i = j + 1 ∧ xs[j]? = some a := by
  cases i with
  | zero => simp [h.lists.1]
  | succ i => simp [h.lists.2]

theorem Rank.Ranked.ordered (h : r.Ranked xs) : r.Ordered r.entry := by
  have hprecedes : ∀ i j a b, i < j → r.ranks.get i = some a → r.ranks.get j = some b →
      (r.objects a).Precedes (r.objects b) ∧ 0 ≤ (r.objects a).value := by
    intro i j a b hij ha hb
    obtain ⟨i, rfl, hi⟩ := h.get_iff.mp ha
    obtain ⟨j, rfl, hj⟩ := h.get_iff.mp hb
    obtain ⟨hi', rfl⟩ := List.getElem?_eq_some_iff.mp hi
    obtain ⟨hj', rfl⟩ := List.getElem?_eq_some_iff.mp hj
    exact ⟨pairwise_iff_getElem.mp h.sorted i j hi' hj' (by omega), h.nonneg _ (getElem_mem hi')⟩
  have hrank : ∀ i a, r.ranks.get i = some a → (r.objects a).rank = i := by
    intro i a ha
    obtain ⟨j, rfl, hj⟩ := h.get_iff.mp ha
    rw [h.positions j a hj, Nat.zero_add]
  have hmem : ∀ a, (∃ i, r.ranks.get i = some a) ↔ a ∈ xs := by
    intro a
    rw [mem_iff_getElem?]
    constructor
    · rintro ⟨i, hi⟩
      obtain ⟨j, -, hj⟩ := h.get_iff.mp hi
      exact ⟨j, hj⟩
    · rintro ⟨j, hj⟩
      exact ⟨j + 1, h.get_iff.mpr ⟨j, rfl, hj⟩⟩
  refine ⟨fun a => ?_, rfl, fun i => ?_, hrank, ?_, ?_, fun id i => ?_, fun count i => ?_⟩
  · rw [hmem]
    exact ⟨fun ha => ⟨_, (h.items _ a).mpr ⟨ha, rfl⟩⟩, fun ⟨id, hid⟩ => ((h.items id a).mp hid).1⟩
  · rw [h.lists.maxn]
    cases i with
    | zero => simp [h.lists.1]
    | succ i => simp [h.lists.2]
  · intro i j a b hij ha hb
    obtain ⟨hab | hab, h0⟩ := hprecedes i j a b hij ha hb
    · exact RankItem.value_le hab
    · rw [hab]
      exact h0
  · intro i j a b hij ha hb hpos
    obtain ⟨hab | hab, -⟩ := hprecedes i j a b hij ha hb
    · exact RankItem.above_iff.mpr hab
    · exact absurd hab hpos.ne'
  · rw [Rank.getRank, map_eq_some_iff]
    constructor
    · rintro ⟨a, ha, rfl⟩
      obtain ⟨hin, hid⟩ := (h.items id a).mp ha
      obtain ⟨i, hi⟩ := (hmem a).mpr hin
      rw [hrank i a hi]
      exact ⟨a, hi, hid⟩
    · rintro ⟨a, ha, hid⟩
      exact ⟨a, (h.items id a).mpr ⟨(hmem a).mp ⟨i, ha⟩, hid⟩, hrank i a ha⟩
  · rw [Rank.getTop, collect_eq count _ [] (Nat.zero_le _), h.lists.ipairs, nil_append, length_nil,
      Nat.sub_zero, h.lists.2]
    by_cases hi : i < count
    · rw [if_pos hi]
      simp [hi, comp_def]
    · rw [if_neg hi]
      simp [hi]

end Ordered

theorem rankRun_ranked (calls : List (RankCall I V T)) :
    ∀ (r : Rank I V T) (xs : List ℕ), r.Ranked xs → (∀ c ∈ calls, c.Nonneg) →
      ∃ r' ys, run rankStep r calls = .ok r' ∧ r'.Ranked ys ∧ r'.entry = calls.foldl scoreStep r.entry := by
  induction calls with
  | nil => exact fun r xs h _ => ⟨r, xs, rfl, h, rfl⟩
  | cons c calls ih =>
    intro r xs h hc
    obtain ⟨r₁, ys, hstep, h₁, hentry⟩ :
        ∃ r₁ ys, rankStep r c = .ok r₁ ∧ r₁.Ranked ys ∧ r₁.entry = scoreStep r.entry c := by
      cases c with
      | setValue id value updateTime =>
        have hvalue : 0 ≤ value := hc _ mem_cons_self
        obtain ⟨r₁, rank, ys, hset, h₁, hentry⟩ := h.setValue id hvalue updateTime
        exact ⟨r₁, ys, by rw [rankStep, hset]; rfl, h₁, hentry⟩
      | remove id =>
        obtain ⟨ys, h₁, hentry⟩ := h.remove id
        exact ⟨_, ys, rfl, h₁, hentry⟩
    obtain ⟨r', zs, hrun, h', hentry'⟩ := ih r₁ ys h₁ fun d hd => hc d (mem_cons_of_mem c hd)
    refine ⟨r', zs, ?_, h', ?_⟩
    · rw [run, hstep]
      exact hrun
    · rw [hentry', hentry, foldl_cons]

omit [Zero T] in
theorem Rank.init_ranked (junk : RankItem I V T) : (Rank.init junk).Ranked [] :=
  ⟨⟨fun _ _ => by simp [Rank.init], nofun, nofun⟩, LuaArray.lists_empty, rankedFrom_nil, List.Pairwise.nil⟩

theorem leaderboard_ordered (junk : RankItem I V T) (calls : List (RankCall I V T)) (hcalls : ∀ c ∈ calls, c.Nonneg) :
    ∃ r, run rankStep (Rank.init junk) calls = .ok r ∧ r.Ordered (calls.foldl scoreStep fun _ => none) := by
  obtain ⟨r, ys, hrun, h, hentry⟩ := rankRun_ranked calls _ [] (Rank.init_ranked junk) hcalls
  refine ⟨r, hrun, ?_⟩
  have hordered := h.ordered
  rw [hentry] at hordered
  exact hordered

theorem leaderboard_ordered_five :
    ∃ r, run rankStep (Rank.init (⟨0, 0, 0, 0⟩ : RankItem ℤ ℤ ℤ))
        [.setValue 1 10 5, .setValue 2 10 7, .setValue 3 20 1, .setValue 3 0 9, .remove 1] = .ok r ∧
      r.Ordered ([.setValue 1 10 5, .setValue 2 10 7, .setValue 3 20 1, .setValue 3 0 9, .remove 1].foldl scoreStep
        fun _ => none) := by
  refine leaderboard_ordered _ _ fun c hc => ?_
  simp only [mem_cons, not_mem_nil, or_false] at hc
  rcases hc with rfl | rfl | rfl | rfl | rfl <;> simp [RankCall.Nonneg]

end CServer.Arena
