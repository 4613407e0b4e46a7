import CServer.Calc.HeroProperty
import CServer.Lib.Fuel

/-! # `world/calc/calc.c`: the suits of a hero's equips

The equip of the slot `i` has the cell `i - 1` and its affix `j` the cell `6 i + j`, so the affixes of the first slot have
those of the slots from 7 on. A suit is then counted in a cell of its own for each quality, and the numbers it reaches
are looked up with an array of ten entries.
-/
namespace CServer.Calc
open CServer.Lib CServer.Logic Function List Option

/-! ## The array -/

section Cells
variable (t : CalcTables) (player : PlayerView)

def baseSuitAt (i : ℕ) : Option SuitIn := (player.equipAt i).bind (equipSuit t)

def affixSuitAt (i j : ℕ) : Option SuitIn := (player.equipAt i).bind fun equip => affixSuit t equip j

/-- The array when the equips have been written to the first `b` cells and affixes to the cells before `a`: the equips
come later where both have been written to one cell. -/
def suitCellsTo (b a c : ℕ) : SuitIn :=
  match if c < b then baseSuitAt t player (c + 1) else none with
  | some s => s
  | none =>
    match if 6 ≤ c ∧ c < a then affixSuitAt t player (c / 6) (c % 6) else none with
    | some s => s
    | none => .zero

def suitCells : ℕ → SuitIn := suitCellsTo t player 12 78

variable {t player}
variable {a b c i j : ℕ}

theorem suitCellsTo_congr {a' b' : ℕ}
    (hbase : (if c < b then baseSuitAt t player (c + 1) else none) = if c < b' then baseSuitAt t player (c + 1) else none)
    (haffix : (if 6 ≤ c ∧ c < a then affixSuitAt t player (c / 6) (c % 6) else none) =
      if 6 ≤ c ∧ c < a' then affixSuitAt t player (c / 6) (c % 6) else none) :
    suitCellsTo t player b a c = suitCellsTo t player b' a' c := by
  rw [suitCellsTo, suitCellsTo, hbase, haffix]

theorem writeSuit_base (hb : b < suitSlotCount) :
    writeSuit (suitCellsTo t player b a) b (baseSuitAt t player (b + 1)) = .ok (suitCellsTo t player (b + 1) a) := by
  have hsame : ∀ c, c ≠ b → suitCellsTo t player b a c = suitCellsTo t player (b + 1) a c := by
    intro c hc
    refine suitCellsTo_congr ?_ rfl
    by_cases hlt : c < b
    · rw [if_pos hlt, if_pos (by omega)]
    · rw [if_neg hlt, if_neg (by omega)]
  cases hs : baseSuitAt t player (b + 1) with
  | none =>
    refine congrArg Except.ok (funext fun c => ?_)
    by_cases hc : c = b
    · subst hc
      refine suitCellsTo_congr ?_ rfl
      simp [hs]
    · exact hsame c hc
  | some s =>
    rw [writeSuit]
    simp only [hb, if_true]
    refine congrArg Except.ok (funext fun c => ?_)
    by_cases hc : c = b
    · subst hc
      rw [update_self, suitCellsTo, if_pos (Nat.lt_succ_self c), hs]
    · rw [update_of_ne hc]
      exact hsame c hc

theorem writeSuit_affix (ha : a < suitSlotCount) (h6 : 6 ≤ a) (hba : b ≤ a) :
    writeSuit (suitCellsTo t player b a) a (affixSuitAt t player (a / 6) (a % 6)) = .ok (suitCellsTo t player b (a + 1)) := by
  have hsame : ∀ c, c ≠ a → suitCellsTo t player b a c = suitCellsTo t player b (a + 1) c := by
    intro c hc
    refine suitCellsTo_congr rfl ?_
    by_cases hlt : 6 ≤ c ∧ c < a
    · rw [if_pos hlt, if_pos (by omega)]
    · rw [if_neg hlt, if_neg (by omega)]
  have hbase : (if a < b then baseSuitAt t player (a + 1) else none) = none := if_neg (by omega)
  have hin : 6 ≤ a ∧ a < a + 1 := ⟨h6, Nat.lt_succ_self a⟩
  cases hs : affixSuitAt t player (a / 6) (a % 6) with
  | none =>
    refine congrArg Except.ok (funext fun c => ?_)
    by_cases hc : c = a
    · subst hc
      refine suitCellsTo_congr rfl ?_
      simp [hs]
    · exact hsame c hc
  | some s =>
    rw [writeSuit]
    simp only [ha, if_true]
    refine congrArg Except.ok (funext fun c => ?_)
    by_cases hc : c = a
    · subst hc
      rw [update_self, suitCellsTo, hbase, if_pos hin, hs]
    · rw [update_of_ne hc]
      exact hsame c hc

theorem writeAffixes_ok {equip : HeroEquip} (hequip : player.equipAt i = some equip) (hi : 1 ≤ i) (hi12 : i ≤ 12) (k : ℕ)
    (hk : k ≤ 6) :
    (List.range k).foldlM (fun cells j => writeSuit cells (affixCell i j) (affixSuit t equip j))
      (suitCellsTo t player i (i * 6)) = .ok (suitCellsTo t player i (i * 6 + k)) := by
  induction k with
  | zero => rfl
  | succ k ih =>
    have hlt : i * 6 + k < suitSlotCount := by
      show i * 6 + k < 12 + 12 * 6
      omega
    have hstep := @writeSuit_affix t player (i * 6 + k) i hlt (by omega) (by omega)
    have hdiv : (i * 6 + k) / 6 = i := by omega
    have hmod : (i * 6 + k) % 6 = k := by omega
    have haffix : affixSuitAt t player i k = affixSuit t equip k := by rw [affixSuitAt, hequip, bind_some]
    rw [hdiv, hmod, haffix] at hstep
    rw [range_succ, foldlM_append, ih (by omega), ok_bind, foldlM_cons]
    show (writeSuit (suitCellsTo t player i (i * 6 + k)) (i * 6 + k) (affixSuit t equip k) >>= fun cells => pure cells) = _
    rw [hstep]
    rfl

def slotHead (t : CalcTables) (player : PlayerView) (head : List Property) (i : ℕ) : List Property :=
  match player.equipAt i with
  | none => head
  | some equip => addGroups t player i (addAll head (calcEquip t equip 10000))

theorem calcSlot_ok (head : List Property) (hi : 1 ≤ i) (hi12 : i ≤ 12) :
    calcSlot t player ⟨head, suitCellsTo t player (i - 1) (i * 6)⟩ i =
      .ok ⟨slotHead t player head i, suitCellsTo t player i ((i + 1) * 6)⟩ := by
  have hcell : i - 1 < suitSlotCount := by
    show i - 1 < 12 + 12 * 6
    omega
  have hbase := @writeSuit_base t player (i * 6) (i - 1) hcell
  rw [Nat.sub_add_cancel hi] at hbase
  rw [calcSlot, slotHead]
  cases hequip : player.equipAt i with
  | none =>
    -- nothing is written for an empty slot
    have hnone : baseSuitAt t player i = none := by rw [baseSuitAt, hequip, bind_none]
    have haffix : ∀ j, affixSuitAt t player i j = none := fun j => by rw [affixSuitAt, hequip, bind_none]
    rw [hnone] at hbase
    have hcells : suitCellsTo t player (i - 1) (i * 6) = suitCellsTo t player i ((i + 1) * 6) := by
      refine (Except.ok.inj hbase).trans (funext fun c => suitCellsTo_congr rfl ?_)
      by_cases hlt : 6 ≤ c ∧ c < i * 6
      · rw [if_pos hlt, if_pos (by omega)]
      · by_cases hlt' : 6 ≤ c ∧ c < (i + 1) * 6
        · have hdiv : c / 6 = i := by omega
          rw [if_neg hlt, if_pos hlt', hdiv, haffix]
        · rw [if_neg hlt, if_neg hlt']
    rw [hcells]
  | some equip =>
    have hsuit : baseSuitAt t player i = equipSuit t equip := by rw [baseSuitAt, hequip, bind_some]
    rw [hsuit] at hbase
    have haffixes := @writeAffixes_ok t player i equip hequip hi hi12 6 le_rfl
    simp only [hbase, ok_bind]
    rw [show equipPropertyPoolMax = 6 from rfl, haffixes, ok_bind, show (i + 1) * 6 = i * 6 + 6 by omega]
    rfl

theorem calcSlots_cells (head : List Property) :
    calcSlots t player head = .ok ⟨(List.range' 1 12).foldl (slotHead t player) head, suitCells t player⟩ := by
  have hrun : ∀ k, k ≤ 12 → (List.range' 1 k).foldlM (calcSlot t player) ⟨head, fun _ => .zero⟩ =
      .ok ⟨(List.range' 1 k).foldl (slotHead t player) head, suitCellsTo t player k ((k + 1) * 6)⟩ := by
    intro k
    induction k with
    | zero =>
      intro _
      have hzero : (fun _ => SuitIn.zero) = suitCellsTo t player 0 6 := by
        funext c
        rw [suitCellsTo, if_neg (Nat.not_lt_zero c), if_neg (by omega)]
      show Except.ok _ = _
      rw [hzero]
      rfl
    | succ k ih =>
      intro hk
      have hslot := @calcSlot_ok t player (k + 1) ((List.range' 1 k).foldl (slotHead t player) head) (by omega) hk
      rw [Nat.add_sub_cancel] at hslot
      have hlast : List.range' 1 (k + 1) = List.range' 1 k ++ [k + 1] := by
        rw [range'_1_concat, Nat.add_comm]
      rw [hlast, foldlM_append, ih (by omega), ok_bind, foldlM_cons, hslot, foldl_append]
      rfl
  exact hrun 12 le_rfl

end Cells

/-! ## Counting -/

def cellCount (cells : ℕ → SuitIn) (m : ℕ) (suit : ℤ) (q : ℕ) : ℕ :=
  ((Finset.range m).filter fun i => (cells i).suit = suit ∧ (q : ℤ) ≤ (cells i).quality).card

/-- The first `k` cells of the output are those of the suits in the first `m` cells, each with its counts. -/
structure Counted (cells : ℕ → SuitIn) (m k : ℕ) (out : ℕ → SuitOut) : Prop where
  used : k ≤ m
  free : ∀ j, k ≤ j → out j = .zero
  suit : ∀ j, j < k → (out j).suit ≠ 0
  distinct : ∀ j j', j < k → j' < k → (out j).suit = (out j').suit → j = j'
  count : ∀ j q, j < k → q < 10 → (out j).quality q = cellCount cells m (out j).suit q
  found : ∀ i, i < m → (cells i).suit ≠ 0 → ∃ j, j < k ∧ (out j).suit = (cells i).suit

section Counting
variable {cells : ℕ → SuitIn} {m k n : ℕ} {out : ℕ → SuitOut} {suit : ℤ} {q : ℕ}

theorem cellCount_succ : cellCount cells (m + 1) suit q =
    cellCount cells m suit q + if (cells m).suit = suit ∧ (q : ℤ) ≤ (cells m).quality then 1 else 0 := by
  unfold cellCount
  rw [Finset.range_add_one, Finset.filter_insert]
  split
  · rw [Finset.card_insert_of_notMem (by simp)]
  · rfl

theorem cellCount_eq_zero (h : ∀ i, i < m → (cells i).suit ≠ suit) : cellCount cells m suit q = 0 := by
  rw [cellCount, Finset.card_eq_zero, Finset.filter_eq_empty_iff]
  intro i hi hmatch
  exact h i (Finset.mem_range.mp hi) hmatch.1

theorem cellCount_anti {q' : ℕ} (hq : q ≤ q') : cellCount cells m suit q' ≤ cellCount cells m suit q := by
  refine Finset.card_le_card fun i hi => ?_
  rw [Finset.mem_filter] at hi ⊢
  exact ⟨hi.1, hi.2.1, by omega⟩

def SuitOut.plus (out : SuitOut) (s : SuitIn) : SuitOut :=
  ⟨s.suit, fun k => if (k : ℤ) ≤ s.quality ∧ k < 10 then out.quality k + 1 else out.quality k⟩

theorem plus_quality {o : SuitOut} {s : SuitIn} (hq : q < 10) :
    (o.plus s).quality q = o.quality q + if (q : ℤ) ≤ s.quality then 1 else 0 := by
  simp only [SuitOut.plus, hq, and_true]
  split <;> rfl

theorem Counted.again (h : Counted cells m k out) {j : ℕ} (hj : j < k) (hsuit : (out j).suit = (cells m).suit) :
    Counted cells (m + 1) k (update out j ((out j).plus (cells m))) := by
  have hsuits : ∀ i, (update out j ((out j).plus (cells m)) i).suit = (out i).suit := by
    intro i
    by_cases hi : i = j
    · subst hi
      rw [update_self]
      exact hsuit.symm
    · rw [update_of_ne hi]
  refine ⟨by have := h.used; omega, fun i hi => ?_, fun i hi => ?_, fun i i' hi hi' he => ?_, fun i q hi hq => ?_,
    fun i hi hne => ?_⟩
  · rw [update_of_ne (by omega)]
    exact h.free i hi
  · rw [hsuits]
    exact h.suit i hi
  · rw [hsuits, hsuits] at he
    exact h.distinct i i' hi hi' he
  · rw [hsuits, cellCount_succ, ← h.count i q hi hq]
    by_cases hij : i = j
    · subst hij
      rw [update_self, plus_quality hq]
      simp [hsuit]
    · have hne : (cells m).suit ≠ (out i).suit := fun he => hij (h.distinct i j hi hj (he.symm.trans hsuit.symm))
      rw [update_of_ne hij]
      simp [hne]
  · by_cases him : i = m
    · subst him
      exact ⟨j, hj, (hsuits j).trans hsuit⟩
    · obtain ⟨j', hj', he⟩ := h.found i (by omega) hne
      exact ⟨j', hj', (hsuits j').trans he⟩

theorem Counted.first (h : Counted cells m k out) (h0 : (cells m).suit ≠ 0)
    (hnew : ∀ j, j < k → (out j).suit ≠ (cells m).suit) :
    Counted cells (m + 1) (k + 1) (update out k ((out k).plus (cells m))) := by
  have hself : update out k ((out k).plus (cells m)) k = (out k).plus (cells m) := update_self ..
  have hother : ∀ i, i ≠ k → update out k ((out k).plus (cells m)) i = out i := fun i hi =>
    update_of_ne hi _ _
  have hzero : ∀ q, cellCount cells m (cells m).suit q = 0 := by
    intro q
    refine cellCount_eq_zero fun i hi he => ?_
    obtain ⟨j, hj, hsuit⟩ := h.found i hi (he ▸ h0)
    exact hnew j hj (hsuit.trans he)
  refine ⟨by have := h.used; omega, fun i hi => ?_, fun i hi => ?_, fun i i' hi hi' he => ?_, fun i q hi hq => ?_,
    fun i hi hne => ?_⟩
  · rw [hother i (by omega)]
    exact h.free i (by omega)
  · by_cases hik : i = k
    · subst hik
      rw [hself]
      exact h0
    · rw [hother i hik]
      exact h.suit i (by omega)
  · by_cases hik : i = k
    · by_cases hik' : i' = k
      · omega
      · subst hik
        rw [hself, hother i' hik'] at he
        exact absurd he.symm (hnew i' (by omega))
    · by_cases hik' : i' = k
      · subst hik'
        rw [hself, hother i hik] at he
        exact absurd he (hnew i (by omega))
      · rw [hother i hik, hother i' hik'] at he
        exact h.distinct i i' (by omega) (by omega) he
  · by_cases hik : i = k
    · subst hik
      have hfree := h.free i le_rfl
      rw [hself, plus_quality hq, cellCount_succ, hfree]
      simp [SuitOut.plus, SuitOut.zero, hzero]
    · have hne : (cells m).suit ≠ (out i).suit := fun he => hnew i (by omega) he.symm
      rw [hother i hik, cellCount_succ, h.count i q (by omega) hq]
      simp [hne]
  · by_cases him : i = m
    · subst him
      exact ⟨k, by omega, by rw [hself]; rfl⟩
    · obtain ⟨j, hj, he⟩ := h.found i (by omega) hne
      exact ⟨j, by omega, by rw [hother j (by omega)]; exact he⟩

theorem Counted.one (h : Counted cells m k out) (hm : m < n) :
    ∃ k', Counted cells (m + 1) k' (calcSuitOne n out (cells m)) := by
  have hused := h.used
  rw [calcSuitOne]
  by_cases h0 : (cells m).suit = 0
  · -- a cell without a suit is passed over
    rw [if_pos h0]
    refine ⟨k, by omega, h.free, h.suit, h.distinct, fun j q hj hq => ?_, fun i hi hne => ?_⟩
    · rw [cellCount_succ, if_neg (fun hc => h.suit j hj (hc.1.symm.trans h0)), h.count j q hj hq]
      rfl
    · have him : i ≠ m := fun he => hne (he ▸ h0)
      exact h.found i (by omega) hne
  · rw [if_neg h0]
    -- the search stops at the cell of the suit, or at the first free one
    have hfind : ∀ j, j < n → ((out j).suit = (cells m).suit ∨ (out j).suit = 0) →
        (∀ i, i < j → i < k ∧ (out i).suit ≠ (cells m).suit) →
        (List.range n).find? (fun j => decide ((out j).suit = (cells m).suit ∨ (out j).suit = 0)) = some j := by
      intro j hj hat hbefore
      rw [List.find?_range_eq_some]
      refine ⟨decide_eq_true hat, mem_range.mpr hj, fun i hi => ?_⟩
      obtain ⟨hik, hne⟩ := hbefore i hi
      simp [hne, h.suit i hik]
    by_cases hold : ∃ j, j < k ∧ (out j).suit = (cells m).suit
    · obtain ⟨j, hj, hsuit⟩ := hold
      rw [hfind j (by omega) (.inl hsuit) fun i hi => ⟨by omega, fun he => by
        have := h.distinct i j (by omega) hj (he.trans hsuit.symm)
        omega⟩]
      exact ⟨k, h.again hj hsuit⟩
    · have hnew : ∀ j, j < k → (out j).suit ≠ (cells m).suit := fun j hj he => hold ⟨j, hj, he⟩
      rw [hfind k (by omega) (.inr (by rw [h.free k le_rfl]; rfl)) fun i hi => ⟨hi, hnew i hi⟩]
      exact ⟨k + 1, h.first h0 hnew⟩

theorem calcSuit_counted (cells : ℕ → SuitIn) (n : ℕ) : ∃ k, Counted cells n k (calcSuit cells n) := by
  have hrun : ∀ m, m ≤ n → ∃ k, Counted cells m k
      ((List.range m).foldl (fun out i => calcSuitOne n out (cells i)) fun _ => .zero) := by
    intro m
    induction m with
    | zero =>
      intro _
      exact ⟨0, le_rfl, fun _ _ => rfl, fun _ hj => absurd hj (Nat.not_lt_zero _), fun _ _ hj => absurd hj (Nat.not_lt_zero _),
        fun _ _ hj => absurd hj (Nat.not_lt_zero _), fun _ hi => absurd hi (Nat.not_lt_zero _)⟩
    | succ m ih =>
      intro hm
      obtain ⟨k, hk⟩ := ih (by omega)
      rw [range_succ, foldl_append]
      exact hk.one hm
  exact hrun n le_rfl

end Counting

/-! ## The array of ten -/

section Inside
variable {t : CalcTables} {out : SuitOut} {cells : ℕ → SuitIn}

theorem foldlM_through {σ α : Type} {f : σ → α → Except Fault σ} {l : List α} (h : ∀ a ∈ l, ∀ s, ∃ s', f s a = .ok s') (s : σ) :
    ∃ s', l.foldlM f s = .ok s' := by
  induction l generalizing s with
  | nil => exact ⟨s, rfl⟩
  | cons a l ih =>
    obtain ⟨s₁, h₁⟩ := h a (by simp) s
    obtain ⟨s₂, h₂⟩ := ih (fun b hb => h b (mem_cons_of_mem a hb)) s₁
    exact ⟨s₂, by rw [foldlM_cons, h₁, ok_bind, h₂]⟩

theorem suitCountStep_ok {suit : ℤ} {j k : ℕ} (hk : k < 10) (acc : (ℕ → ℕ) × List Property) :
    ∃ acc', suitCountStep t suit j acc k = .ok acc' := by
  rw [suitCountStep, if_neg (by omega)]
  split
  · exact ⟨_, rfl⟩
  · split
    · exact ⟨_, rfl⟩
    · exact ⟨_, rfl⟩

theorem mem_suitCounts {n k : ℕ} : k ∈ suitCounts n ↔ 2 ≤ k ∧ k ≤ n := by
  rw [suitCounts, mem_reverse, mem_range'_1]
  omega

theorem suitCell_inside : (∃ cs, suitCellProperties t out = .ok cs) ↔ (out.suit ≠ 0 → ∀ q, q < 10 → out.quality q < 10) := by
  rw [suitCellProperties]
  by_cases h0 : out.suit = 0
  · simp [h0]
  · rw [if_neg h0]
    constructor
    · rintro ⟨cs, hcs⟩ - q hq
      by_contra hlarge
      obtain ⟨acc, hacc, -⟩ := bind_ok_iff.mp hcs
      -- the pass for this quality starts outside the array
      refine foldlM_not_ok (a := q) (by simpa using hq) (fun s b hb => ?_) _ acc hacc
      refine foldlM_not_ok (a := out.quality q) (mem_suitCounts.mpr ⟨by omega, le_rfl⟩) (fun s b hb => ?_) s b hb
      rw [suitCountStep, if_pos (by omega)] at hb
      exact absurd hb (by simp)
    · intro hsmall
      obtain ⟨acc, hacc⟩ := foldlM_through (σ := (ℕ → ℕ) × List Property) (l := (List.range 10).reverse)
        (f := fun acc j => (suitCounts (out.quality j)).foldlM (suitCountStep t out.suit j) acc)
        (fun j hj acc => by
          have hj' : j < 10 := by simpa using hj
          refine foldlM_through (fun k hk acc => suitCountStep_ok ?_ acc) acc
          have h1 := (mem_suitCounts.mp hk).2
          have h2 := hsmall h0 j hj'
          omega) ((fun _ => 0), [])
      exact ⟨acc.2, by rw [hacc]; rfl⟩

theorem suitProperties_inside : (∃ cs, suitProperties t (calcSuit cells suitSlotCount) = .ok cs) ↔
    ∀ suit, suit ≠ 0 → cellCount cells suitSlotCount suit 0 < 10 := by
  obtain ⟨k, hk⟩ := calcSuit_counted cells suitSlotCount
  have hcells : (∃ cs, suitProperties t (calcSuit cells suitSlotCount) = .ok cs) ↔
      ∀ j, j < suitSlotCount → ∃ cs, suitCellProperties t (calcSuit cells suitSlotCount j) = .ok cs := by
    rw [suitProperties]
    constructor
    · rintro ⟨cs, hcs⟩ j hj
      by_contra hno
      refine foldlM_not_ok (mem_range.mpr hj) (fun s b hb => ?_) _ cs hcs
      obtain ⟨c, hc, -⟩ := bind_ok_iff.mp hb
      exact hno ⟨c, hc⟩
    · intro hall
      refine foldlM_through (fun j hj acc => ?_) []
      obtain ⟨cs, hcs⟩ := hall j (mem_range.mp hj)
      exact ⟨acc ++ cs, by rw [hcs]; rfl⟩
  rw [hcells]
  have hused := hk.used
  constructor
  · intro hall suit hsuit
    by_contra hlarge
    -- there is a cell of this suit, since there are pieces of it
    obtain ⟨i, hi⟩ : ∃ i, i ∈ (Finset.range suitSlotCount).filter fun i => (cells i).suit = suit ∧ ((0 : ℕ) : ℤ) ≤ (cells i).quality := by
      refine Finset.card_pos.mp ?_
      have : cellCount cells suitSlotCount suit 0 > 0 := by omega
      exact this
    rw [Finset.mem_filter, Finset.mem_range] at hi
    obtain ⟨j, hj, he⟩ := hk.found i hi.1 (by rw [hi.2.1]; exact hsuit)
    have hin := suitCell_inside.mp (hall j (by omega)) (hk.suit j hj) 0 (by omega)
    rw [hk.count j 0 hj (by omega), he, hi.2.1] at hin
    exact hlarge hin
  · intro hsmall j hj
    rw [suitCell_inside]
    intro hne q hq
    have hjk : j < k := by
      by_contra hfree
      refine hne ?_
      rw [hk.free j (by omega)]
      rfl
    rw [hk.count j q hjk hq]
    exact lt_of_le_of_lt (cellCount_anti (Nat.zero_le q)) (hsmall _ hne)

end Inside

/-! ## Pieces -/

/-- The places of a hero that a piece can be in: `(i, 0)` is the equip of the slot `i` and `(i, j + 1)` its affix `j`. -/
def suitPlaces : Finset (ℕ × ℕ) := Finset.Icc 1 12 ×ˢ Finset.range 7

def pieceAt (t : CalcTables) (player : PlayerView) (p : ℕ × ℕ) : Option SuitIn :=
  match p.2 with
  | 0 => baseSuitAt t player p.1
  | j + 1 => affixSuitAt t player p.1 j

def pieceCell (p : ℕ × ℕ) : ℕ :=
  match p.2 with
  | 0 => p.1 - 1
  | j + 1 => affixCell p.1 j

def pieceCount (t : CalcTables) (player : PlayerView) (suit : ℤ) (q : ℕ) : ℕ :=
  (suitPlaces.filter fun p => (pieceAt t player p).any fun s => s.suit = suit ∧ (q : ℤ) ≤ s.quality).card

def InSuit (t : CalcTables) (player : PlayerView) (p : ℕ × ℕ) (s : SuitIn) : Prop :=
  p ∈ suitPlaces ∧ pieceAt t player p = some s ∧ s.suit ≠ 0

/-- Each piece of a suit has its own cell in the array, holds it there, is counted in the one cell of its suit, and no
number of pieces leaves the array of ten. -/
structure SuitsRight (t : CalcTables) (player : PlayerView) (cells : ℕ → SuitIn) : Prop where
  own : ∀ p p' s s', InSuit t player p s → InSuit t player p' s' → pieceCell p = pieceCell p' → p = p'
  held : ∀ p s, InSuit t player p s → pieceCell p < suitSlotCount ∧ cells (pieceCell p) = s
  found : ∀ p s, InSuit t player p s → ∃ j, j < suitSlotCount ∧ (calcSuit cells suitSlotCount j).suit = s.suit
  single : ∀ j j', j < suitSlotCount → j' < suitSlotCount → (calcSuit cells suitSlotCount j).suit ≠ 0 →
    (calcSuit cells suitSlotCount j).suit = (calcSuit cells suitSlotCount j').suit → j = j'
  count : ∀ j q, j < suitSlotCount → q < 10 → (calcSuit cells suitSlotCount j).suit ≠ 0 →
    (calcSuit cells suitSlotCount j).quality q = pieceCount t player (calcSuit cells suitSlotCount j).suit q
  inside : ∃ cs, suitProperties t (calcSuit cells suitSlotCount) = .ok cs

/-- No equip with a configuration is in a slot from 7 on while that affix of the equip in the first slot has a suit, and
no suit has ten pieces. -/
def SuitsFit (t : CalcTables) (player : PlayerView) : Prop :=
  (∀ j, j < 6 → ∀ s, affixSuitAt t player 1 j = some s → s.suit ≠ 0 → baseSuitAt t player (7 + j) = none) ∧
  ∀ suit, suit ≠ 0 → pieceCount t player suit 0 < 10

section Pieces
variable {t : CalcTables} {player : PlayerView} {s : SuitIn} {suit : ℤ} {q c : ℕ}

theorem mem_suitPlaces {p : ℕ × ℕ} : p ∈ suitPlaces ↔ (1 ≤ p.1 ∧ p.1 ≤ 12) ∧ p.2 < 7 := by
  rw [suitPlaces, Finset.mem_product, Finset.mem_Icc, Finset.mem_range]

theorem pieceCell_lt {p : ℕ × ℕ} (hp : p ∈ suitPlaces) : pieceCell p < suitSlotCount := by
  obtain ⟨i, k⟩ := p
  have h := mem_suitPlaces.mp hp
  show pieceCell (i, k) < 12 + 12 * 6
  cases k with
  | zero =>
    show i - 1 < _
    dsimp only at h
    omega
  | succ j =>
    show i * 6 + j < _
    dsimp only at h
    omega

theorem suitCells_base (hc : c < 12) (hbase : baseSuitAt t player (c + 1) = some s) : suitCells t player c = s := by
  rw [suitCells, suitCellsTo, if_pos hc, hbase]

theorem suitCells_affix (hbase : c < 12 → baseSuitAt t player (c + 1) = none) (hc : 6 ≤ c ∧ c < 78)
    (haffix : affixSuitAt t player (c / 6) (c % 6) = some s) : suitCells t player c = s := by
  have hnone : (if c < 12 then baseSuitAt t player (c + 1) else none) = none := by
    split
    · exact hbase ‹_›
    · rfl
  rw [suitCells, suitCellsTo, hnone, if_pos hc, haffix]

theorem suitCells_cases (c : ℕ) : suitCells t player c = .zero ∨
    (c < 12 ∧ baseSuitAt t player (c + 1) = some (suitCells t player c)) ∨
    ((6 ≤ c ∧ c < 78) ∧ affixSuitAt t player (c / 6) (c % 6) = some (suitCells t player c)) := by
  cases hbase : if c < 12 then baseSuitAt t player (c + 1) else none with
  | some b =>
    have hc : c < 12 := by
      by_contra hc
      rw [if_neg hc] at hbase
      exact absurd hbase (by simp)
    rw [if_pos hc] at hbase
    rw [suitCells_base hc hbase]
    exact .inr (.inl ⟨hc, hbase⟩)
  | none =>
    cases haffix : if 6 ≤ c ∧ c < 78 then affixSuitAt t player (c / 6) (c % 6) else none with
    | none =>
      left
      rw [suitCells, suitCellsTo, hbase, haffix]
    | some a =>
      have hc : 6 ≤ c ∧ c < 78 := by
        by_contra hc
        rw [if_neg hc] at haffix
        exact absurd haffix (by simp)
      rw [if_pos hc] at haffix
      rw [suitCells_affix (fun h12 => by rwa [if_pos h12] at hbase) hc haffix]
      exact .inr (.inr ⟨hc, haffix⟩)

theorem suitCells_piece (hs : (suitCells t player c).suit ≠ 0) :
    ∃ p, InSuit t player p (suitCells t player c) ∧ pieceCell p = c := by
  obtain hzero | ⟨hc, hbase⟩ | ⟨hc, haffix⟩ := @suitCells_cases t player c
  · rw [hzero] at hs
    exact absurd rfl hs
  · refine ⟨(c + 1, 0), ⟨mem_suitPlaces.mpr ?_, hbase, hs⟩, rfl⟩
    dsimp only
    omega
  · refine ⟨(c / 6, c % 6 + 1), ⟨mem_suitPlaces.mpr ?_, haffix, hs⟩, ?_⟩
    · dsimp only
      omega
    · show c / 6 * 6 + c % 6 = c
      omega

/-- The pieces have cells of their own and are held there if none of the first slot's affixes is written over. -/
theorem pieces_held (hfit : ∀ j, j < 6 → ∀ s, affixSuitAt t player 1 j = some s → s.suit ≠ 0 → baseSuitAt t player (7 + j) = none) :
    (∀ p p' s s', InSuit t player p s → InSuit t player p' s' → pieceCell p = pieceCell p' → p = p') ∧
    ∀ p s, InSuit t player p s → suitCells t player (pieceCell p) = s := by
  -- an affix of the first slot and the equip of a later one have the same cell only if one of them is missing
  have hmeet : ∀ i i' j s s', InSuit t player (i, 0) s → InSuit t player (i', j + 1) s' →
      pieceCell (i, 0) ≠ pieceCell (i', j + 1) := by
    intro i i' j s s' h h' he
    have hp := mem_suitPlaces.mp h.1
    have hp' := mem_suitPlaces.mp h'.1
    dsimp only at hp hp'
    have he' : i - 1 = i' * 6 + j := he
    obtain rfl : i' = 1 := by omega
    obtain rfl : i = 7 + j := by omega
    have hnone := hfit j (by omega) s' h'.2.1 h'.2.2
    have hsome : baseSuitAt t player (7 + j) = some s := h.2.1
    rw [hnone] at hsome
    exact absurd hsome (by simp)
  constructor
  · rintro ⟨i, k⟩ ⟨i', k'⟩ s s' h h' he
    have hp := mem_suitPlaces.mp h.1
    have hp' := mem_suitPlaces.mp h'.1
    dsimp only at hp hp'
    cases k with
    | zero =>
      cases k' with
      | zero =>
        have he' : i - 1 = i' - 1 := he
        rw [show i = i' by omega]
      | succ j' => exact absurd he (hmeet i i' j' s s' h h')
    | succ j =>
      cases k' with
      | zero => exact absurd he.symm (hmeet i' i j s' s h' h)
      | succ j' =>
        have he' : i * 6 + j = i' * 6 + j' := he
        rw [show i = i' by omega, show j = j' by omega]
  · rintro ⟨i, k⟩ s h
    have hp := mem_suitPlaces.mp h.1
    dsimp only at hp
    cases k with
    | zero =>
      refine suitCells_base (c := i - 1) (by omega) ?_
      rw [Nat.sub_add_cancel hp.1.1]
      exact h.2.1
    | succ j =>
      have hdiv : (i * 6 + j) / 6 = i := by omega
      have hmod : (i * 6 + j) % 6 = j := by omega
      refine suitCells_affix (c := i * 6 + j) (fun hc => ?_) (by omega) ?_
      · obtain rfl : i = 1 := by omega
        rw [show 1 * 6 + j + 1 = 7 + j by omega]
        exact hfit j (by omega) s h.2.1 h.2.2
      · rw [hdiv, hmod]
        exact h.2.1

theorem cellCount_eq_pieceCount
    (hown : ∀ p p' s s', InSuit t player p s → InSuit t player p' s' → pieceCell p = pieceCell p' → p = p')
    (hheld : ∀ p s, InSuit t player p s → suitCells t player (pieceCell p) = s) (hsuit : suit ≠ 0) :
    cellCount (suitCells t player) suitSlotCount suit q = pieceCount t player suit q := by
  have hmem : ∀ p, p ∈ (suitPlaces.filter fun p => (pieceAt t player p).any fun s => s.suit = suit ∧ (q : ℤ) ≤ s.quality) ↔
      ∃ s, InSuit t player p s ∧ s.suit = suit ∧ (q : ℤ) ≤ s.quality := by
    intro p
    rw [Finset.mem_filter]
    constructor
    · rintro ⟨hp, hany⟩
      cases hs : pieceAt t player p with
      | none =>
        rw [hs] at hany
        exact absurd hany (by simp)
      | some s =>
        rw [hs, any_some, decide_eq_true_eq] at hany
        exact ⟨s, ⟨hp, hs, by rw [hany.1]; exact hsuit⟩, hany⟩
    · rintro ⟨s, ⟨hp, hs, -⟩, hmatch⟩
      exact ⟨hp, by rw [hs, any_some]; exact decide_eq_true hmatch⟩
  symm
  refine Finset.card_bij (fun p _ => pieceCell p) (fun p hp => ?_) (fun p hp p' hp' he => ?_) (fun c hc => ?_)
  · obtain ⟨s, hin, hmatch⟩ := (hmem p).mp hp
    rw [Finset.mem_filter, Finset.mem_range, hheld p s hin]
    exact ⟨pieceCell_lt hin.1, hmatch⟩
  · obtain ⟨s, hin, -⟩ := (hmem p).mp hp
    obtain ⟨s', hin', -⟩ := (hmem p').mp hp'
    exact hown p p' s s' hin hin' he
  · obtain ⟨-, hmatch⟩ := Finset.mem_filter.mp hc
    obtain ⟨p, hin, hcell⟩ := @suitCells_piece t player c (by rw [hmatch.1]; exact hsuit)
    exact ⟨p, (hmem p).mpr ⟨_, hin, hmatch⟩, hcell⟩

theorem calcSuit_cells (cells : ℕ → SuitIn) :
    (∀ c, c < suitSlotCount → (cells c).suit ≠ 0 →
      ∃ j, j < suitSlotCount ∧ (calcSuit cells suitSlotCount j).suit = (cells c).suit) ∧
    (∀ j j', (calcSuit cells suitSlotCount j).suit ≠ 0 →
      (calcSuit cells suitSlotCount j).suit = (calcSuit cells suitSlotCount j').suit → j = j') ∧
    ∀ j q, q < 10 → (calcSuit cells suitSlotCount j).suit ≠ 0 →
      (calcSuit cells suitSlotCount j).quality q = cellCount cells suitSlotCount (calcSuit cells suitSlotCount j).suit q := by
  obtain ⟨k, hk⟩ := calcSuit_counted cells suitSlotCount
  have hused := hk.used
  have hjk : ∀ j, (calcSuit cells suitSlotCount j).suit ≠ 0 → j < k := by
    intro j hne
    by_contra hfree
    refine hne ?_
    rw [hk.free j (by omega)]
    rfl
  refine ⟨fun c hc hne => ?_, fun j j' hne he => ?_, fun j q hq hne => hk.count j q (hjk j hne) hq⟩
  · obtain ⟨j, hj, he⟩ := hk.found c hc hne
    exact ⟨j, by omega, he⟩
  · exact hk.distinct j j' (hjk j hne) (hjk j' (he ▸ hne)) he

end Pieces

/-- Suits are right exactly if no affix of the first slot is written over and no suit has ten pieces. -/
theorem suitsRight_iff (t : CalcTables) (player : PlayerView) (head : List Property) :
    (∃ s, calcSlots t player head = .ok s ∧ SuitsRight t player s.suitIn) ↔ SuitsFit t player := by
  rw [calcSlots_cells]
  constructor
  · rintro ⟨s, hs, hright⟩
    obtain rfl := Except.ok.inj hs
    have hheld : ∀ p s, InSuit t player p s → suitCells t player (pieceCell p) = s := fun p s hin => (hright.held p s hin).2
    refine ⟨fun j hj s hs hsuit => ?_, fun suit hsuit => ?_⟩
    · by_contra hsome
      obtain ⟨b, hb⟩ := ne_none_iff_exists'.mp hsome
      have haffix : InSuit t player (1, j + 1) s := ⟨mem_suitPlaces.mpr (by dsimp only; omega), hs, hsuit⟩
      -- the cell of the affix holds the suit of the equip
      have hcell : pieceCell (1, j + 1) = 6 + j := by
        show 1 * 6 + j = 6 + j
        omega
      have hbase : suitCells t player (6 + j) = b := by
        refine suitCells_base (c := 6 + j) (by omega) ?_
        rw [show 6 + j + 1 = 7 + j by omega]
        exact hb
      have hsame : s = b := by
        rw [← hheld _ s haffix, hcell, hbase]
      have hequip : InSuit t player (7 + j, 0) b := ⟨mem_suitPlaces.mpr (by dsimp only; omega), hb, hsame ▸ hsuit⟩
      have hplace := hright.own (1, j + 1) (7 + j, 0) s b haffix hequip (by
        rw [hcell]
        show 6 + j = 7 + j - 1
        omega)
      exact absurd (congrArg Prod.snd hplace) (by simp)
    · rw [← cellCount_eq_pieceCount hright.own hheld hsuit]
      exact suitProperties_inside.mp hright.inside suit hsuit
  · rintro ⟨hfit, hcount⟩
    obtain ⟨hown, hheld⟩ := pieces_held hfit
    obtain ⟨hfound, hsingle, hright⟩ := calcSuit_cells (suitCells t player)
    refine ⟨_, rfl, hown, fun p s hin => ⟨pieceCell_lt hin.1, hheld p s hin⟩, fun p s hin => ?_,
      fun j j' _ _ => hsingle j j', fun j q _ hq hne => ?_, ?_⟩
    · obtain ⟨j, hj, he⟩ := hfound (pieceCell p) (pieceCell_lt hin.1) (by rw [hheld p s hin]; exact hin.2.2)
      exact ⟨j, hj, by rw [he, hheld p s hin]⟩
    · rw [hright j q hq hne, cellCount_eq_pieceCount hown hheld hne]
    · rw [suitProperties_inside]
      intro suit hsuit
      rw [cellCount_eq_pieceCount hown hheld hsuit]
      exact hcount suit hsuit

def noTables : CalcTables where
  hero _ := none
  weapon _ := none
  levelProperty _ := none
  evo _ _ := none
  star _ _ := none
  talentSkill _ _ := none
  skillGroup _ := []
  equip _ := none
  equipAffix _ := none
  equipSuit _ _ _ := none
  common _ := none
  buff _ := none
  fashion _ _ := none
  scale value ratio := BitVec.ofInt 32 ((value * ratio).tdiv 10000)
  affixValue _ value _ _ := value

def twoSuits : CalcTables :=
  { noTables with
    equip := fun gid => if gid = 1 then some ⟨[], [], 3, 2⟩ else none
    equipAffix := fun id => if id = 1 then some ⟨0, 0, 5, 0⟩ else none }

def slotsOneAndSeven : PlayerView where
  talent _ := none
  equipAt i := if i = 1 ∨ i = 7 then some ⟨1, 1, fun j => if j = 1 then ⟨1, 0, 0⟩ else ⟨0, 0, 0⟩⟩ else none
  buffs := []
  items := []

theorem suits_overwritten : ¬ ∃ s, calcSlots twoSuits slotsOneAndSeven [] = .ok s ∧ SuitsRight twoSuits slotsOneAndSeven s.suitIn := by
  rw [calcSlots_cells]
  rintro ⟨s, hs, hright⟩
  obtain rfl := Except.ok.inj hs
  have haffix : InSuit twoSuits slotsOneAndSeven (1, 1) ⟨5, 0⟩ := ⟨by decide, by decide, by decide⟩
  have hheld := (hright.held _ _ haffix).2
  exact absurd hheld (by decide)

end CServer.Calc
