import Mathlib.Tactic

/-! # Texts with quoted literals

A text is a list of characters. `scan` takes it apart as a reader of quoted literals does: between two
quotes stands the value of a literal, where two quotes in a row are one, and a character behind the
escape character is replaced by what `unescape` gives for it; everything else is kept character by character.
-/
namespace CServer.Lib
open List Option

inductive Token (α : Type)
  | char (c : α)
  | lit (v : List α)
  deriving DecidableEq

inductive ScanMode (α : Type)
  | text
  | inside (v : List α)
  | escaped (v : List α)
  | closed (v : List α)

variable {α : Type} (quote esc : α) (unescape : α → List α)

def scan [DecidableEq α] : ScanMode α → List α → Option (List (Token α))
  | .text, [] => some []
  | .text, c :: cs => if c = quote then scan (.inside []) cs else (scan .text cs).map (Token.char c :: ·)
  | .inside _, [] => none
  | .inside v, c :: cs =>
    if c = quote then scan (.closed v) cs
    else if c = esc then scan (.escaped v) cs
    else scan (.inside (v ++ [c])) cs
  | .escaped _, [] => none
  | .escaped v, c :: cs => scan (.inside (v ++ unescape c)) cs
  | .closed v, [] => some [.lit v]
  | .closed v, c :: cs =>
    if c = quote then scan (.inside (v ++ [quote])) cs
    else (scan .text cs).map fun ts => .lit v :: .char c :: ts

example : scan 0 1 (fun c => [c]) .text [2, 0, 3, 0] = some [.char 2, .lit [3]] := by
  simp [scan]

inductive Verbatim : List α → Prop
  | nil : Verbatim []
  | char {c : α} {v : List α} : c ≠ quote → c ≠ esc → Verbatim v → Verbatim (c :: v)
  | pair {c : α} {v : List α} : unescape c = [esc, c] → Verbatim v → Verbatim (esc :: c :: v)

/-- A token as text, with `write` for what stands between the quotes. -/
def Token.render (write : List α → List α) : Token α → List α
  | .char c => [c]
  | .lit v => quote :: write v ++ [quote]

def ReadsAs [DecidableEq α] (text v : List α) : Prop := ∀ u rest : List α,
  scan quote esc unescape (.inside u) (text ++ quote :: rest) = scan quote esc unescape (.closed (u ++ v)) rest

def Token.Stands : Token α → Prop
  | .char _ => True
  | .lit v => Verbatim quote esc unescape v

def Separate : List (Token α) → Prop
  | [] => True
  | .char c :: ts => c ≠ quote ∧ Separate ts
  | .lit _ :: ts => (∀ v, ts.head? ≠ some (.lit v)) ∧ Separate ts

def plain (cs : List α) : List (Token α) := cs.map Token.char

def Opens (ts : List (Token α)) : Prop := Separate quote ts ∧ ∀ v, ts.head? ≠ some (.lit v)

def Token.cost : Token α → ℕ
  | .char _ => 1
  | .lit v => v.length + 2

def cost (ts : List (Token α)) : ℕ := (ts.map Token.cost).sum

def ScanMode.cost : ScanMode α → ℕ
  | .text => 0
  | .inside v => v.length + 1
  | .escaped v => v.length + 2
  | .closed v => v.length + 2

variable {quote esc unescape} {write : List α → List α}

theorem cost_cons (t : Token α) (ts : List (Token α)) : cost (t :: ts) = t.cost + cost ts := by
  rw [cost, map_cons, sum_cons, cost]

theorem cost_append (ts ts' : List (Token α)) : cost (ts ++ ts') = cost ts + cost ts' := by
  rw [cost, map_append, sum_append, cost, cost]

theorem cost_plain (cs : List α) : cost (plain cs) = cs.length := by
  induction cs with
  | nil => rfl
  | cons c cs ih =>
    rw [plain, map_cons, ← plain, cost_cons, ih, length_cons, Token.cost]
    omega

theorem render_length (ts : List (Token α)) : (ts.flatMap (Token.render quote id)).length = cost ts := by
  induction ts with
  | nil => rfl
  | cons t ts ih =>
    rw [flatMap_cons, length_append, ih, cost_cons]
    cases t with
    | char c => rfl
    | lit v => simp [Token.render, Token.cost]

theorem render_plain (cs : List α) : (plain cs).flatMap (Token.render quote write) = cs := by
  induction cs with
  | nil => rfl
  | cons c cs ih =>
    rw [plain, map_cons, ← plain, flatMap_cons, ih]
    rfl

theorem Separate.plain {cs : List α} (h : quote ∉ cs) {ts : List (Token α)} (hts : Separate quote ts) :
    Separate quote (plain cs ++ ts) := by
  induction cs with
  | nil => exact hts
  | cons c cs ih =>
    have hc : c ≠ quote := fun he => h (he ▸ mem_cons_self)
    exact ⟨hc, ih fun hm => h (mem_cons_of_mem c hm)⟩

theorem Separate.opens {cs : List α} (h : quote ∉ cs) (hne : cs ≠ []) {ts : List (Token α)} (hts : Separate quote ts) :
    Opens quote (CServer.Lib.plain cs ++ ts) := by
  refine ⟨hts.plain h, ?_⟩
  cases cs with
  | nil => exact absurd rfl hne
  | cons c cs =>
    intro v hv
    simp [CServer.Lib.plain] at hv

theorem opens_plain {cs : List α} (h : quote ∉ cs) : Opens quote (plain cs) := by
  have hs := @Separate.plain _ quote cs h [] trivial
  rw [append_nil] at hs
  refine ⟨hs, fun v hv => ?_⟩
  cases cs with
  | nil => simp [plain] at hv
  | cons c cs => simp [plain] at hv

/-! ## Lists of values -/

section Intercalate
variable {β : Type} {sep : List α} {text : β → List α} {tokens : β → List (Token α)}

theorem intercalate_cons (sep : List α) (xs : List (List α)) : ∀ x,
    sep.intercalate (x :: xs) = x ++ xs.flatMap (sep ++ ·) := by
  induction xs with
  | nil =>
    intro x
    simp [List.intercalate]
  | cons y xs ih =>
    intro x
    rw [flatMap_cons, append_assoc, ← ih y]
    simp [List.intercalate]

theorem plain_append (cs cs' : List α) : plain (cs ++ cs') = plain cs ++ plain cs' := map_append

theorem plain_intercalate (sep : List α) (xs : List (List α)) :
    (plain sep).intercalate (xs.map plain) = plain (sep.intercalate xs) := by
  cases xs with
  | nil => rfl
  | cons x xs =>
    rw [map_cons, intercalate_cons, intercalate_cons, plain_append]
    apply congrArg
    induction xs with
    | nil => rfl
    | cons y xs ih => rw [map_cons, flatMap_cons, flatMap_cons, ih, plain_append, plain_append]

theorem not_mem_intercalate {a : α} (hsep : a ∉ sep) {xs : List (List α)} (h : ∀ x ∈ xs, a ∉ x) :
    a ∉ sep.intercalate xs := by
  cases xs with
  | nil => exact not_mem_nil
  | cons x xs =>
    rw [intercalate_cons, mem_append, not_or]
    refine ⟨h x mem_cons_self, fun hm => ?_⟩
    obtain ⟨y, hy, ha⟩ := mem_flatMap.mp hm
    rcases mem_append.mp ha with ha | ha
    · exact hsep ha
    · exact h y (mem_cons_of_mem x hy) ha

theorem render_intercalate (h : ∀ x, (tokens x).flatMap (Token.render quote write) = text x) (xs : List β) :
    ((plain sep).intercalate (xs.map tokens)).flatMap (Token.render quote write) = sep.intercalate (xs.map text) := by
  cases xs with
  | nil => rfl
  | cons x xs =>
    rw [map_cons, map_cons, intercalate_cons, intercalate_cons, flatMap_append, h]
    apply congrArg
    induction xs with
    | nil => rfl
    | cons y xs ih =>
      rw [map_cons, map_cons, flatMap_cons, flatMap_cons, flatMap_append,
        flatMap_append, render_plain, h, ih]

theorem cost_intercalate (sep : List α) {k : β → ℕ} (h : ∀ x, (text x).length + k x = cost (tokens x)) (xs : List β) :
    (sep.intercalate (xs.map text)).length + (xs.map k).sum = cost ((plain sep).intercalate (xs.map tokens)) := by
  cases xs with
  | nil => rfl
  | cons x xs =>
    rw [map_cons, map_cons, map_cons, intercalate_cons, intercalate_cons, length_append,
      cost_append, ← h, sum_cons]
    have hrest : ((xs.map text).flatMap (sep ++ ·)).length + (xs.map k).sum =
        cost ((xs.map tokens).flatMap (plain sep ++ ·)) := by
      induction xs with
      | nil => rfl
      | cons y xs ih =>
        simp only [map_cons, flatMap_cons, length_append, sum_cons, cost_append, cost_plain,
          ← h, ← ih]
        omega
    omega

theorem stand_plain (cs : List α) : ∀ t ∈ plain cs, t.Stands quote esc unescape := by
  intro t ht
  obtain ⟨c, -, rfl⟩ := mem_map.mp ht
  trivial

theorem stand_intercalate (sep : List α) (xs : List β) :
    (∀ t ∈ (plain sep).intercalate (xs.map tokens), t.Stands quote esc unescape) ↔
      ∀ x ∈ xs, ∀ t ∈ tokens x, t.Stands quote esc unescape := by
  cases xs with
  | nil => simp [List.intercalate]
  | cons x xs =>
    rw [map_cons, intercalate_cons]
    constructor
    · intro h y hy t ht
      apply h
      rcases mem_cons.mp hy with rfl | hy
      · exact mem_append_left _ ht
      · apply mem_append_right
        exact mem_flatMap.mpr ⟨_, mem_map.mpr ⟨y, hy, rfl⟩, mem_append_right _ ht⟩
    · intro h t ht
      rcases mem_append.mp ht with ht | ht
      · exact h x mem_cons_self t ht
      · obtain ⟨_, hm, ht⟩ := mem_flatMap.mp ht
        obtain ⟨y, hy, rfl⟩ := mem_map.mp hm
        rcases mem_append.mp ht with ht | ht
        · exact stand_plain sep t ht
        · exact h y (mem_cons_of_mem x hy) t ht

theorem Opens.intercalate {xs : List β} (hsep : quote ∉ sep) (hne : sep ≠ [])
    (h : ∀ x ∈ xs, ∀ ts, Opens quote ts → Separate quote (tokens x ++ ts)) {tail : List (Token α)}
    (ht : Opens quote tail) : Separate quote ((plain sep).intercalate (xs.map tokens) ++ tail) := by
  cases xs with
  | nil => exact ht.1
  | cons x xs =>
    have hrest : Opens quote ((xs.map tokens).flatMap (plain sep ++ ·) ++ tail) := by
      have hxs := fun y hy => h y (mem_cons_of_mem x hy)
      clear h
      induction xs with
      | nil => exact ht
      | cons y xs ih =>
        rw [map_cons, flatMap_cons, append_assoc, append_assoc]
        apply Separate.opens hsep hne
        exact hxs y mem_cons_self _ (ih fun z hz => hxs z (mem_cons_of_mem y hz))
    rw [map_cons, intercalate_cons, append_assoc]
    exact h x mem_cons_self _ hrest

end Intercalate

/-! ## Reading back -/

variable [DecidableEq α]

theorem Verbatim.reads {v : List α} (h : Verbatim quote esc unescape v) (hqe : quote ≠ esc) :
    ReadsAs quote esc unescape v v := by
  induction h with
  | nil =>
    intro u rest
    rw [nil_append, append_nil, scan, if_pos rfl]
  | @char c v hq he hv ih =>
    intro u rest
    rw [cons_append, scan, if_neg hq, if_neg he, ih, append_assoc]
    rfl
  | @pair c v hc hv ih =>
    intro u rest
    rw [cons_append, cons_append, scan, if_neg (Ne.symm hqe), if_pos rfl, scan, hc, ih, append_assoc]
    rfl

theorem scan_closed {ts : List (Token α)} (hts : Opens quote ts) (v : List α)
    (hread : scan quote esc unescape .text (ts.flatMap (Token.render quote write)) = some ts) :
    scan quote esc unescape (.closed v) (ts.flatMap (Token.render quote write)) = some (.lit v :: ts) := by
  cases ts with
  | nil => rfl
  | cons t ts =>
    cases t with
    | lit w => exact absurd rfl (hts.2 w)
    | char c =>
      rw [flatMap_cons] at hread ⊢
      simp only [Token.render, singleton_append] at hread ⊢
      rw [scan, if_neg hts.1.1] at hread
      rw [scan, if_neg hts.1.1]
      cases hs : scan quote esc unescape .text (ts.flatMap (Token.render quote write)) with
      | none => simp [hs] at hread
      | some ts' =>
        simp only [hs, map_some, some.injEq, cons.injEq, true_and] at hread ⊢
        rw [hread]

theorem scan_renders {ts : List (Token α)} (hsep : Separate quote ts)
    (h : ∀ v, .lit v ∈ ts → ReadsAs quote esc unescape (write v) v) :
    scan quote esc unescape .text (ts.flatMap (Token.render quote write)) = some ts := by
  induction ts with
  | nil => rfl
  | cons t ts ih =>
    have hrest := fun v hv => h v (mem_cons_of_mem t hv)
    rw [flatMap_cons]
    cases t with
    | char c =>
      rw [Token.render, singleton_append, scan, if_neg hsep.1, ih hsep.2 hrest, map_some]
    | lit v =>
      rw [Token.render, append_assoc, cons_append, scan, if_pos rfl, singleton_append,
        h v mem_cons_self, nil_append]
      exact scan_closed ⟨hsep.2, hsep.1⟩ v (ih hsep.2 hrest)

/-! ## What a text costs -/

section Cost
variable (hone : ∀ c, unescape c = [esc, c] ∨ (unescape c).length = 1)
include hone

theorem cost_le (cs : List α) : ∀ (m : ScanMode α) (ts : List (Token α)),
    scan quote esc unescape m cs = some ts → cost ts ≤ cs.length + m.cost := by
  induction cs with
  | nil =>
    intro m ts h
    cases m with
    | text =>
      obtain rfl := some.inj h
      exact Nat.zero_le _
    | inside v => simp [scan] at h
    | escaped v => simp [scan] at h
    | closed v =>
      obtain rfl := some.inj h
      simp [cost, Token.cost, ScanMode.cost]
  | cons c cs ih =>
    intro m ts h
    rw [length_cons]
    cases m with
    | text =>
      rw [scan] at h
      split at h
      · have := ih _ ts h
        simp only [ScanMode.cost, length_nil] at this ⊢
        omega
      · obtain ⟨ts', hts', rfl⟩ := map_eq_some_iff.mp h
        have := ih _ ts' hts'
        rw [cost_cons]
        simp only [ScanMode.cost, Token.cost] at this ⊢
        omega
    | inside v =>
      rw [scan] at h
      split at h
      · have := ih _ ts h
        simp only [ScanMode.cost] at this ⊢
        omega
      · split at h
        · have := ih _ ts h
          simp only [ScanMode.cost] at this ⊢
          omega
        · have := ih _ ts h
          simp only [ScanMode.cost, length_append, length_singleton] at this ⊢
          omega
    | escaped v =>
      rw [scan] at h
      have := ih _ ts h
      have hlen : (unescape c).length ≤ 2 := by
        rcases hone c with hc | hc
        · simp [hc]
        · omega
      simp only [ScanMode.cost, length_append] at this ⊢
      omega
    | closed v =>
      rw [scan] at h
      split at h
      · have := ih _ ts h
        simp only [ScanMode.cost, length_append, length_singleton] at this ⊢
        omega
      · obtain ⟨ts', hts', rfl⟩ := map_eq_some_iff.mp h
        have := ih _ ts' hts'
        rw [cost_cons, cost_cons]
        simp only [ScanMode.cost, Token.cost] at this ⊢
        omega

theorem verbatim_tail (n : ℕ) : ∀ (cs u : List α) (ts : List (Token α)), cs.length ≤ n →
    scan quote esc unescape (.inside u) cs = some ts → cs.length + u.length + 1 ≤ cost ts →
    ∃ v rest, cs = v ++ quote :: rest ∧ Verbatim quote esc unescape v ∧
      scan quote esc unescape (.closed (u ++ v)) rest = some ts := by
  induction n with
  | zero =>
    intro cs u ts hn h
    obtain rfl := length_eq_zero_iff.mp (Nat.le_zero.mp hn)
    simp [scan] at h
  | succ n ih =>
    intro cs u ts hn h hc
    cases cs with
    | nil => simp [scan] at h
    | cons c cs =>
      rw [length_cons] at hn hc
      rw [scan] at h
      split at h
      · next hq =>
        refine ⟨[], cs, by rw [hq, nil_append], .nil, ?_⟩
        rw [append_nil]
        exact h
      · next hq =>
        split at h
        · next he =>
          cases cs with
          | nil => simp [scan] at h
          | cons d cs =>
            rw [length_cons] at hn hc
            rw [scan] at h
            have hle := cost_le hone cs _ ts h
            simp only [ScanMode.cost, length_append] at hle
            -- two characters were read, so two must come of them
            have hd : unescape d = [esc, d] := by
              rcases hone d with hd | hd
              · exact hd
              · omega
            rw [hd] at h
            obtain ⟨v, rest, rfl, hv, hs⟩ := ih cs (u ++ [esc, d]) ts (by omega) h (by simp; omega)
            refine ⟨esc :: d :: v, rest, by rw [he]; rfl, .pair hd hv, ?_⟩
            rw [append_assoc] at hs
            exact hs
        · next he =>
          obtain ⟨v, rest, rfl, hv, hs⟩ := ih cs (u ++ [c]) ts (by omega) h (by simp; omega)
          refine ⟨c :: v, rest, rfl, .char hq he hv, ?_⟩
          rw [append_assoc] at hs
          exact hs

theorem verbatim_of_cost (n : ℕ) : ∀ (cs : List α) (ts : List (Token α)), cs.length ≤ n →
    scan quote esc unescape .text cs = some ts → cs.length ≤ cost ts → ∀ t ∈ ts, t.Stands quote esc unescape := by
  induction n with
  | zero =>
    intro cs ts hn h _
    obtain rfl := length_eq_zero_iff.mp (Nat.le_zero.mp hn)
    obtain rfl := some.inj h
    exact fun t ht => absurd ht not_mem_nil
  | succ n ih =>
    intro cs ts hn h hc
    cases cs with
    | nil =>
      obtain rfl := some.inj h
      exact fun t ht => absurd ht not_mem_nil
    | cons c cs =>
      rw [length_cons] at hn hc
      rw [scan] at h
      split at h
      · obtain ⟨v, rest, rfl, hv, hs⟩ := verbatim_tail hone n cs [] ts (by omega) h (by simp; omega)
        rw [nil_append] at hs
        simp only [length_append, length_cons] at hn hc
        cases rest with
        | nil =>
          obtain rfl := some.inj hs
          exact fun t ht => by rw [mem_singleton.mp ht]; exact hv
        | cons d rest =>
          rw [length_cons] at hn hc
          rw [scan] at hs
          split at hs
          · -- a quote doubled is read for one
            have := cost_le hone rest _ ts hs
            simp only [ScanMode.cost, length_append, length_singleton] at this
            omega
          · obtain ⟨ts', hts', rfl⟩ := map_eq_some_iff.mp hs
            rw [cost_cons, cost_cons] at hc
            simp only [Token.cost] at hc
            have hrest := ih rest ts' (by omega) hts' (by omega)
            intro t ht
            rcases mem_cons.mp ht with rfl | ht
            · exact hv
            · rcases mem_cons.mp ht with rfl | ht
              · trivial
              · exact hrest t ht
      · obtain ⟨ts', hts', rfl⟩ := map_eq_some_iff.mp h
        rw [cost_cons] at hc
        simp only [Token.cost] at hc
        have hrest := ih cs ts' (by omega) hts' (by omega)
        intro t ht
        rcases mem_cons.mp ht with rfl | ht
        · trivial
        · exact hrest t ht

end Cost

theorem scan_render_iff (hqe : quote ≠ esc) (hone : ∀ c, unescape c = [esc, c] ∨ (unescape c).length = 1)
    {ts : List (Token α)} (hsep : Separate quote ts) :
    scan quote esc unescape .text (ts.flatMap (Token.render quote id)) = some ts ↔
      ∀ t ∈ ts, t.Stands quote esc unescape := by
  constructor
  · intro h
    exact verbatim_of_cost hone _ _ ts le_rfl h (le_of_eq (render_length ts))
  · intro h
    exact scan_renders hsep fun v hv => Verbatim.reads (h _ hv) hqe

end CServer.Lib
