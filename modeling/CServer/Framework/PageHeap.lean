import CServer.Lib.Exec
import CServer.Lib.Chain
import CServer.Lib.Keyed
import CServer.Lib.Memory

/-! # `framework/memory.c`: heaps made of pages

`_agMH_alloc` cuts regions from the page on top; a request that does not fit gets a new page, one of its own if it is
larger than a page. What `malloc` answers goes with each call. An `int` is a ℤ whose overflow ends the run, and so does
a page that is read or freed while it is not allocated.
-/
namespace CServer.Framework
open CServer.Lib Function List

/-! ## Memory -/

inductive HeapFault
  | overflow
  | badPointer
  | diverges
  deriving DecidableEq, Repr

structure Block where
  addr : ℕ
  len : ℕ
  deriving DecidableEq, Repr

def Block.Apart (a b : Block) : Prop := a.addr + a.len ≤ b.addr ∨ b.addr + b.len ≤ a.addr

instance (a b : Block) : Decidable (a.Apart b) := inferInstanceAs (Decidable (_ ∨ _))

/-- The block is inside the payload of the page: `sizeof(struct heap_page)` is 8. -/
def Block.Inside (a page : Block) : Prop := page.addr + 8 ≤ a.addr ∧ a.addr + a.len ≤ page.addr + page.len

instance (a page : Block) : Decidable (a.Inside page) := inferInstanceAs (Decidable (_ ∧ _))

/-- The blocks that have not been freed, the newest first, `next` of the page at each address, and the arguments of
`free` so far. -/
structure PageMemory where
  blocks : List Block
  next : ℕ → ℕ
  freed : List ℕ

variable (m : PageMemory)

def PageMemory.malloc (p n : ℕ) : PageMemory := { m with blocks := ⟨p, n⟩ :: m.blocks }

def PageMemory.Fresh (p n : ℕ) : Prop := p ≠ 0 ∧ ∀ b ∈ m.blocks, Block.Apart ⟨p, n⟩ b

instance  (p n : ℕ) : Decidable (m.Fresh p n) := inferInstanceAs (Decidable (_ ∧ _))

def PageMemory.free (p : ℕ) : Except HeapFault PageMemory :=
  if p = 0 then .ok m
  else if p ∈ m.blocks.map Block.addr then
    .ok { m with blocks := discard Block.addr p m.blocks, freed := m.freed ++ [p] }
  else .error .badPointer

def PageMemory.readNext (p : ℕ) : Except HeapFault ℕ :=
  if p ∈ m.blocks.map Block.addr then .ok (m.next p) else .error .badPointer

/-! ## The code -/

def int (x : ℤ) : Except HeapFault ℤ := if -2 ^ 31 ≤ x ∧ x < 2 ^ 31 then .ok x else .error .overflow

structure AgMH where
  mem : PageMemory
  addr : ℕ
  current : ℕ
  size : ℤ
  used : ℤ

def growCap (pagesize : ℤ) : ℕ → ℤ → Except HeapFault ℤ
  | 0, _ => .error .diverges
  | fuel + 1, cap =>
    if cap < pagesize then do
      let cap ← int (cap * 2)
      growCap pagesize fuel cap
    else .ok cap

/-- `h` and `page` are what `malloc` answers. An `int` cannot be doubled 31 times. -/
def agMHNew (pagesize : ℤ) (h page : ℕ) : Except HeapFault AgMH := do
  let cap ← growCap pagesize 32 1024
  let mem := PageMemory.malloc ⟨[], fun _ => 0, []⟩ h 16
  let mem := mem.malloc page (8 + cap.toNat)
  .ok ⟨{ mem with next := update mem.next page 0 }, h, page, cap, 0⟩

def roundUp (size : ℤ) : Except HeapFault ℤ := do
  let up ← int (size + 3)
  .ok (BitVec.ofInt 32 up &&& ~~~3#32).toInt

/-- What is asked of `malloc` for a page when `size` bytes do not fit. -/
def AgMH.pageBytes (h : AgMH) (size : ℤ) : ℕ := 8 + (if size < h.size then h.size else size).toNat

/-- `page` is what `malloc` answers if it is called. -/
def agMHAlloc (h : AgMH) (size : ℤ) (page : ℕ) : Except HeapFault (AgMH × ℕ) := do
  let size ← roundUp size
  let left ← int (h.size - h.used)
  if left < size then
    let mem := h.mem.malloc page (h.pageBytes size)
    let mem := { mem with next := update mem.next page h.current }
    .ok ({ h with mem := mem, current := page, used := size }, page + 8)
  else do
    let used ← int (h.used + size)
    .ok ({ h with used := used }, h.current + 8 + h.used.toNat)

def freePages (m : PageMemory) : ℕ → ℕ → ℕ → Except HeapFault PageMemory
  | 0, _, _ => .error .diverges
  | fuel + 1, p, next => do
    let m ← m.free p
    if next = 0 then .ok m
    else do
      let next' ← m.readNext next
      freePages m fuel next next'

def agMHDelete (h : AgMH) : Except HeapFault PageMemory := do
  let next ← h.mem.readNext h.current
  let m ← freePages h.mem h.mem.blocks.length h.current next
  m.free h.addr

/-! ## Runs -/

structure HeapCall where
  size : ℤ
  page : ℕ

def heapStep (h : AgMH) (c : HeapCall) : Except HeapFault (AgMH × ℕ) := agMHAlloc h c.size c.page

def regions (calls : List HeapCall) (answers : List ℕ) : List Block :=
  List.zipWith (fun c p => ⟨p, c.size.toNat⟩) calls answers

/-- The call gets a fresh page from `malloc` if it asks for one. -/
def Malloced (h : AgMH) (c : HeapCall) : Prop :=
  ∀ size ∈ (roundUp c.size).toOption, h.size - h.used < size → h.mem.Fresh c.page (h.pageBytes size)

instance (h : AgMH) (c : HeapCall) : Decidable (Malloced h c) := inferInstanceAs (Decidable (∀ size ∈ _, _))

def AgMH.pages (h : AgMH) : List Block := discard Block.addr h.addr h.mem.blocks

/-! ## Rounding up and growing -/

theorem int_ok {x : ℤ} (hlo : -2 ^ 31 ≤ x) (hhi : x < 2 ^ 31) : int x = .ok x := if_pos ⟨hlo, hhi⟩

theorem and_mask {n : ℕ} (hn : n < 2 ^ 32) : n &&& 4294967292 = n / 4 * 4 := by
  have e1 : (4294967292 : ℕ) = (2 ^ 30 - 1) <<< 2 := by decide
  have e2 : n / 4 * 4 = (n >>> 2) <<< 2 := by simp [Nat.shiftRight_eq_div_pow, Nat.shiftLeft_eq]
  apply Nat.eq_of_testBit_eq
  intro i
  rw [Nat.testBit_and, e1, e2, Nat.testBit_shiftLeft, Nat.testBit_shiftLeft, Nat.testBit_two_pow_sub_one,
    Nat.testBit_shiftRight]
  by_cases hi : 2 ≤ i
  · have e3 : 2 + (i - 2) = i := by omega
    by_cases hi' : i < 32
    · have h30 : i - 2 < 30 := by omega
      simp [hi, h30, e3]
    · have hbit : n.testBit i = false :=
        Nat.testBit_lt_two_pow (hn.trans_le (Nat.pow_le_pow_right (by decide) (by omega)))
      simp [hbit, e3]
  · simp [hi]

theorem roundUp_ok {size : ℤ} (hlo : 0 ≤ size) (hhi : size ≤ 2 ^ 31 - 4) : roundUp size = .ok ((size + 3) / 4 * 4) := by
  obtain ⟨n, rfl⟩ := Int.eq_ofNat_of_zero_le hlo
  have hn : n + 3 < 2 ^ 32 := by omega
  have hmask : (BitVec.ofInt 32 ((n : ℤ) + 3) &&& ~~~3#32).toNat = (n + 3) / 4 * 4 := by
    have hof : BitVec.ofInt 32 ((n : ℤ) + 3) = BitVec.ofNat 32 (n + 3) := by
      rw [← BitVec.ofInt_natCast]
      push_cast
      rfl
    have hnot : (~~~3#32).toNat = 4294967292 := by decide
    rw [BitVec.toNat_and, hof, BitVec.toNat_ofNat, Nat.mod_eq_of_lt hn, hnot, and_mask hn]
  unfold roundUp
  rw [int_ok (by omega) (by omega), ok_bind, BitVec.toInt_eq_toNat_of_lt (by rw [hmask]; omega), hmask]
  push_cast
  rfl

theorem growCap_ok {pagesize : ℤ} (hpage : pagesize ≤ 2 ^ 30) (fuel : ℕ) :
    ∀ cap : ℤ, 0 < cap → cap < 2 ^ 31 → pagesize ≤ cap * 2 ^ fuel →
      ∃ c, growCap pagesize (fuel + 1) cap = .ok c ∧ 0 < c ∧ c < 2 ^ 31 ∧ pagesize ≤ c := by
  induction fuel with
  | zero =>
    intro cap hpos hlt hle
    have hcap : ¬ cap < pagesize := by omega
    exact ⟨cap, if_neg hcap, hpos, hlt, by omega⟩
  | succ fuel ih =>
    intro cap hpos hlt hle
    rw [growCap]
    by_cases hcap : cap < pagesize
    · obtain ⟨c, hc⟩ := ih (cap * 2) (by omega) (by omega) (by rw [mul_assoc, ← pow_succ']; exact hle)
      refine ⟨c, ?_, hc.2⟩
      rw [if_pos hcap, int_ok (by omega) (by omega), ok_bind, hc.1]
    · exact ⟨cap, if_neg hcap, hpos, hlt, by omega⟩

/-! ## The regions of the pages -/

/-- `first` is the page on top, `older` are the pages under it, `rs` the regions handed out. The page on top can be
longer than `size`, and `used` is then beyond `size` and not beyond its end. -/
structure AgMH.Laid (h : AgMH) (first : Block) (older rs : List Block) : Prop where
  blocks : h.mem.blocks = first :: older ++ [⟨h.addr, 16⟩]
  chain : Chain h.mem.next id 0 h.current ((first :: older).map Block.addr)
  placed : h.mem.blocks.Pairwise Block.Apart
  nonnull : ∀ b ∈ h.mem.blocks, b.addr ≠ 0
  freed : h.mem.freed = []
  size_pos : 0 < h.size
  size_lt : h.size < 2 ^ 31
  long : ∀ b ∈ first :: older, 8 + h.size ≤ b.len
  used_nonneg : 0 ≤ h.used
  used_lt : h.used < 2 ^ 31
  used_le : 8 + h.used ≤ first.len
  inside : ∀ r ∈ rs, (r.Inside first ∧ r.addr + r.len ≤ first.addr + 8 + h.used) ∨ ∃ b ∈ older, r.Inside b
  apart : rs.Pairwise Block.Apart

theorem Block.Apart.symm {a b : Block} (h : a.Apart b) : b.Apart a := Or.symm h

theorem Block.Apart.inside {a b p q : Block} (h : p.Apart q) (ha : a.Inside p) (hb : b.Inside q) : a.Apart b := by
  obtain ⟨ha1, ha2⟩ := ha
  obtain ⟨hb1, hb2⟩ := hb
  rcases h with h | h
  · exact .inl (by omega)
  · exact .inr (by omega)

section Step
variable {h : AgMH} {first : Block} {older rs : List Block}

theorem AgMH.Laid.in_page (hl : h.Laid first older rs) {r : Block} (hr : r ∈ rs) : ∃ b ∈ first :: older, r.Inside b := by
  rcases hl.inside r hr with ⟨hin, -⟩ | ⟨b, hb, hin⟩
  · exact ⟨first, mem_cons_self, hin⟩
  · exact ⟨b, mem_cons_of_mem first hb, hin⟩

theorem AgMH.Laid.cut (hl : h.Laid first older rs) {n : ℕ} {used : ℤ} (hn : (n : ℤ) ≤ used)
    (hfit : h.used + used ≤ h.size) :
    ({ h with used := h.used + used } : AgMH).Laid first older (rs ++ [⟨h.current + 8 + h.used.toNat, n⟩]) := by
  have hcur : h.current = first.addr := hl.chain.1
  have hlong : 8 + h.size ≤ first.len := hl.long first mem_cons_self
  have hused := hl.used_nonneg
  have hin : Block.Inside ⟨h.current + 8 + h.used.toNat, n⟩ first := by
    constructor
    · show first.addr + 8 ≤ h.current + 8 + h.used.toNat
      omega
    · show h.current + 8 + h.used.toNat + n ≤ first.addr + first.len
      omega
  refine { hl with
    used_nonneg := by show 0 ≤ h.used + used; omega
    used_lt := by have := hl.size_lt; show h.used + used < 2 ^ 31; omega
    used_le := by show 8 + (h.used + used) ≤ first.len; omega
    inside := ?_
    apart := ?_ }
  · intro r hr
    show (r.Inside first ∧ r.addr + r.len ≤ first.addr + 8 + (h.used + used)) ∨ ∃ b ∈ older, r.Inside b
    rcases mem_append.mp hr with hr | hr
    · rcases hl.inside r hr with ⟨hin', hend⟩ | hold
      · exact .inl ⟨hin', by omega⟩
      · exact .inr hold
    · obtain rfl := mem_singleton.mp hr
      exact .inl ⟨hin, by push_cast; omega⟩
  · refine pairwise_append.mpr ⟨hl.apart, pairwise_singleton _ _, fun r hr r' hr' => ?_⟩
    obtain rfl := mem_singleton.mp hr'
    rcases hl.inside r hr with ⟨-, hend⟩ | ⟨b, hb, hin'⟩
    · exact .inl (by show r.addr + r.len ≤ h.current + 8 + h.used.toNat; omega)
    · have hpages := hl.placed
      rw [hl.blocks, cons_append] at hpages
      have hb' : b ∈ older ++ [⟨h.addr, 16⟩] := mem_append_left _ hb
      exact (rel_of_pairwise_cons hpages hb').symm.inside hin' hin

theorem AgMH.Laid.add (hl : h.Laid first older rs) {n page len : ℕ} {used : ℤ} (hn : (n : ℤ) ≤ used) (hlt : used < 2 ^ 31)
    (hlen : 8 + h.size ≤ len) (hfit : 8 + used ≤ len) (hfresh : h.mem.Fresh page len) :
    ({ h with
        mem := { h.mem.malloc page len with next := update h.mem.next page h.current }
        current := page
        used := used } : AgMH).Laid ⟨page, len⟩ (first :: older) (rs ++ [⟨page + 8, n⟩]) := by
  have hin : Block.Inside ⟨page + 8, n⟩ ⟨page, len⟩ := by
    constructor
    · exact le_refl (page + 8)
    · show page + 8 + n ≤ page + len
      omega
  have hmem : ∀ b ∈ first :: older, b ∈ h.mem.blocks := by
    intro b hb
    rw [hl.blocks]
    exact mem_append_left _ hb
  have hnew : page ∉ (first :: older).map Block.addr := by
    intro hp
    obtain ⟨b, hb, hbp⟩ := mem_map.mp hp
    have hlong := hl.long b hb
    have hsize := hl.size_pos
    rcases hfresh.2 b (hmem b hb) with happ | happ <;> simp only [hbp] at happ <;> omega
  refine { hl with
    blocks := ?_
    chain := ?_
    placed := ?_
    nonnull := ?_
    long := ?_
    used_nonneg := by show 0 ≤ used; omega
    used_lt := hlt
    used_le := hfit
    inside := ?_
    apart := ?_ }
  · show (⟨page, len⟩ : Block) :: h.mem.blocks = _
    rw [hl.blocks]
    rfl
  · exact hl.chain.push hnew
  · exact pairwise_cons.mpr ⟨hfresh.2, hl.placed⟩
  · intro b hb
    rcases mem_cons.mp hb with rfl | hb
    · exact hfresh.1
    · exact hl.nonnull b hb
  · intro b hb
    rcases mem_cons.mp hb with rfl | hb
    · exact hlen
    · exact hl.long b hb
  · intro r hr
    rcases mem_append.mp hr with hr | hr
    · exact .inr (hl.in_page hr)
    · obtain rfl := mem_singleton.mp hr
      refine .inl ⟨hin, ?_⟩
      show ((page + 8 + n : ℕ) : ℤ) ≤ (page : ℤ) + 8 + used
      push_cast
      omega
  · refine pairwise_append.mpr ⟨hl.apart, pairwise_singleton _ _, fun r hr r' hr' => ?_⟩
    obtain rfl := mem_singleton.mp hr'
    obtain ⟨b, hb, hin'⟩ := hl.in_page hr
    exact ((hfresh.2 b (hmem b hb)).symm).inside hin' hin

theorem agMHAlloc_laid (hl : h.Laid first older rs) {c : HeapCall} (hlo : 0 ≤ c.size) (hhi : c.size ≤ 2 ^ 31 - 4)
    (hm : Malloced h c) :
    ∃ h' p first' older', heapStep h c = .ok (h', p) ∧ h'.addr = h.addr ∧
      h'.Laid first' older' (rs ++ [⟨p, c.size.toNat⟩]) := by
  have hround := roundUp_ok hlo hhi
  have hsize := hl.size_lt
  have hpos := hl.size_pos
  have hused := hl.used_nonneg
  have hused' := hl.used_lt
  have hleft : int (h.size - h.used) = .ok (h.size - h.used) := int_ok (by omega) (by omega)
  have hle : c.size ≤ (c.size + 3) / 4 * 4 := by omega
  have hlt : (c.size + 3) / 4 * 4 < 2 ^ 31 := by omega
  have hfresh := hm ((c.size + 3) / 4 * 4) (by rw [hround]; rfl)
  unfold heapStep agMHAlloc
  rw [hround, ok_bind, hleft, ok_bind]
  generalize (c.size + 3) / 4 * 4 = size at hfresh hle hlt ⊢
  have hn : ((c.size.toNat : ℕ) : ℤ) ≤ size := by omega
  by_cases hroom : h.size - h.used < size
  · rw [if_pos hroom]
    have hbytes : 8 + h.size ≤ (h.pageBytes size : ℕ) ∧ 8 + size ≤ (h.pageBytes size : ℕ) := by
      unfold AgMH.pageBytes
      by_cases hsmall : size < h.size
      · rw [if_pos hsmall]
        omega
      · rw [if_neg hsmall]
        omega
    exact ⟨_, _, _, _, rfl, rfl, hl.add hn hlt hbytes.1 hbytes.2 (hfresh hroom)⟩
  · rw [if_neg hroom, int_ok (by omega) (by omega)]
    exact ⟨_, _, first, older, rfl, rfl, hl.cut hn (by omega)⟩

end Step

theorem heapRun_laid (calls : List HeapCall) :
    ∀ {h : AgMH} {first : Block} {older rs : List Block}, h.Laid first older rs →
      (∀ c ∈ calls, 0 ≤ c.size ∧ c.size ≤ 2 ^ 31 - 4) → Along (silent heapStep) Malloced h calls →
      ∃ h' answers first' older', exec heapStep h calls = .ok (h', answers) ∧ answers.length = calls.length ∧
        h'.addr = h.addr ∧ h'.Laid first' older' (rs ++ regions calls answers) := by
  induction calls with
  | nil =>
    intro h first older rs hl _ _
    exact ⟨h, [], first, older, rfl, rfl, rfl, by simpa [regions] using hl⟩
  | cons c calls ih =>
    intro h first older rs hl hsizes hm
    have hc := hsizes c mem_cons_self
    obtain ⟨h₁, p, first₁, older₁, hstep, haddr₁, hl₁⟩ := agMHAlloc_laid hl hc.1 hc.2 hm.1
    obtain ⟨h', answers, first', older', hrun, hlen, haddr, hl'⟩ :=
      ih hl₁ (fun d hd => hsizes d (mem_cons_of_mem c hd)) (hm.2 h₁ (silent_ok hstep))
    refine ⟨h', p :: answers, first', older', exec_cons_ok hstep hrun, by simp [hlen], haddr.trans haddr₁, ?_⟩
    rw [append_assoc] at hl'
    exact hl'

theorem agMHNew_laid {pagesize : ℤ} (hpage : pagesize ≤ 2 ^ 30) (addr page : ℕ) :
    ∃ h, agMHNew pagesize addr page = .ok h ∧ h.addr = addr ∧
      h.mem.blocks = [⟨page, 8 + h.size.toNat⟩, ⟨addr, 16⟩] ∧
      (h.mem.blocks.Pairwise Block.Apart → (∀ b ∈ h.mem.blocks, b.addr ≠ 0) →
        h.Laid ⟨page, 8 + h.size.toNat⟩ [] []) := by
  obtain ⟨cap, hcap, hpos, hlt, -⟩ := growCap_ok hpage 31 1024 (by decide) (by decide) (by omega)
  have hnew : agMHNew pagesize addr page = .ok ⟨⟨[⟨page, 8 + cap.toNat⟩, ⟨addr, 16⟩],
      update (fun _ => 0) page 0, []⟩, addr, page, cap, 0⟩ := by
    rw [agMHNew, hcap]
    rfl
  refine ⟨_, hnew, rfl, rfl, fun hplaced hnonnull => ?_⟩
  exact {
    blocks := rfl
    chain := by
      refine ⟨rfl, ?_⟩
      show update (fun _ => 0) page 0 page = 0
      exact update_self ..
    placed := hplaced
    nonnull := hnonnull
    freed := rfl
    size_pos := hpos
    size_lt := hlt
    long := fun b hb => by
      obtain rfl := mem_singleton.mp hb
      show 8 + cap ≤ ((8 + cap.toNat : ℕ) : ℤ)
      omega
    used_nonneg := le_refl 0
    used_lt := by
      show (0 : ℤ) < 2 ^ 31
      decide
    used_le := by
      show 8 + 0 ≤ ((8 + cap.toNat : ℕ) : ℤ)
      omega
    inside := fun r hr => nomatch hr
    apart := List.Pairwise.nil }

/-! ## Freeing the pages -/

theorem discard_head {b : Block} {bs : List Block} (h : ((b :: bs).map Block.addr).Nodup) :
    discard Block.addr b.addr (b :: bs) = bs := by
  have hnot := (nodup_cons.mp h).1
  unfold Lib.discard
  rw [filter_cons_of_neg (by simp), filter_eq_self]
  intro a ha
  have hne : a.addr ≠ b.addr := fun e => hnot (e ▸ mem_map_of_mem ha)
  simpa using hne

theorem PageMemory.free_head {m : PageMemory} {b : Block} {bs : List Block} (hm : m.blocks = b :: bs)
    (hnodup : (m.blocks.map Block.addr).Nodup) (hb : b.addr ≠ 0) :
    m.free b.addr = .ok { m with blocks := bs, freed := m.freed ++ [b.addr] } := by
  have hmem : b.addr ∈ m.blocks.map Block.addr := by
    rw [hm]
    exact mem_cons_self
  have hrest : discard Block.addr b.addr m.blocks = bs := by
    rw [hm] at hnodup ⊢
    exact discard_head hnodup
  rw [PageMemory.free, if_neg hb, if_pos hmem, hrest]

theorem freePages_ok {tail : List Block} (bs : List Block) :
    ∀ (m : PageMemory) (fuel : ℕ) (b : Block), m.blocks = b :: bs ++ tail → (m.blocks.map Block.addr).Nodup →
      (∀ b ∈ m.blocks, b.addr ≠ 0) → Chain m.next id 0 (m.next b.addr) (bs.map Block.addr) → bs.length < fuel →
      freePages m fuel b.addr (m.next b.addr) =
        .ok { m with blocks := tail, freed := m.freed ++ (b :: bs).map Block.addr } := by
  induction bs with
  | nil =>
    intro m fuel b hm hnodup hnonnull hchain hfuel
    obtain ⟨fuel, rfl⟩ := exists_succ_of_lt hfuel
    have hnext : m.next b.addr = 0 := hchain
    have hb : b.addr ≠ 0 := hnonnull b (by rw [hm]; exact mem_cons_self)
    rw [freePages, PageMemory.free_head hm hnodup hb, ok_bind, if_pos hnext]
    rfl
  | cons b' bs ih =>
    intro m fuel b hm hnodup hnonnull hchain hfuel
    obtain ⟨fuel, rfl⟩ := exists_succ_of_lt hfuel
    have hnext : m.next b.addr = b'.addr := hchain.1
    have hb : b.addr ≠ 0 := hnonnull b (by rw [hm]; exact mem_cons_self)
    have hb' : b'.addr ≠ 0 := hnonnull b' (by rw [hm]; simp)
    rw [freePages, PageMemory.free_head hm hnodup hb, ok_bind, hnext, if_neg hb']
    have hrest := hnodup
    rw [hm, cons_append, map_cons] at hrest
    have hrec := ih { m with blocks := b' :: bs ++ tail, freed := m.freed ++ [b.addr] } fuel b' rfl
      (nodup_cons.mp hrest).2 (fun d hd => hnonnull d (by rw [hm]; exact mem_cons_of_mem b hd))
      hchain.2 (by simp only [length_cons] at hfuel; omega)
    have hread : PageMemory.readNext { m with blocks := b' :: bs ++ tail, freed := m.freed ++ [b.addr] } b'.addr =
        .ok (m.next b'.addr) := if_pos (by simp)
    show (do
      let next' ← PageMemory.readNext { m with blocks := b' :: bs ++ tail, freed := m.freed ++ [b.addr] } b'.addr
      freePages { m with blocks := b' :: bs ++ tail, freed := m.freed ++ [b.addr] } fuel b'.addr next') = _
    rw [hread, ok_bind, hrec]
    simp

theorem addrs_nodup {bs : List Block} (h : bs.Pairwise Block.Apart) (hlen : ∀ b ∈ bs, 0 < b.len) :
    (bs.map Block.addr).Nodup := by
  refine pairwise_map.mpr (h.imp_of_mem fun {a b} ha hb hab => ?_)
  have ha' := hlen a ha
  have hb' := hlen b hb
  rcases hab with hab | hab <;> omega

section Delete
variable {h : AgMH} {first : Block} {older rs : List Block}

theorem AgMH.Laid.nodup (hl : h.Laid first older rs) : (h.mem.blocks.map Block.addr).Nodup := by
  refine addrs_nodup hl.placed fun b hb => ?_
  rw [hl.blocks] at hb
  rcases mem_append.mp hb with hb | hb
  · have hlong := hl.long b hb
    have hsize := hl.size_pos
    omega
  · obtain rfl := mem_singleton.mp hb
    exact Nat.zero_lt_succ 15

theorem AgMH.Laid.pages_eq (hl : h.Laid first older rs) : h.pages = first :: older := by
  have hnodup := hl.nodup
  rw [hl.blocks, map_append] at hnodup
  unfold AgMH.pages Lib.discard
  rw [hl.blocks, filter_append, filter_eq_self.mpr, filter_cons_of_neg (by simp), filter_nil,
    append_nil]
  intro b hb
  have hne : b.addr ≠ h.addr :=
    (nodup_append.mp hnodup).2.2 b.addr (mem_map_of_mem hb) h.addr mem_cons_self
  simpa using hne

theorem agMHDelete_ok (hl : h.Laid first older rs) :
    agMHDelete h = .ok { h.mem with blocks := [], freed := (first :: older).map Block.addr ++ [h.addr] } := by
  have hcur : h.current = first.addr := hl.chain.1
  have hread : h.mem.readNext h.current = .ok (h.mem.next h.current) :=
    if_pos (by rw [hcur, hl.blocks]; exact mem_cons_self)
  have hlen : older.length < h.mem.blocks.length := by
    rw [hl.blocks]
    simp
  have hfree := freePages_ok older h.mem h.mem.blocks.length first hl.blocks hl.nodup hl.nonnull
    hl.chain.2 hlen
  have haddr : h.addr ≠ 0 := hl.nonnull ⟨h.addr, 16⟩ (by rw [hl.blocks]; simp)
  rw [agMHDelete, hread, ok_bind, hcur, hfree, ok_bind, hl.freed, nil_append]
  exact PageMemory.free_head (b := ⟨h.addr, 16⟩) rfl (by simp) haddr

end Delete

/-! ## The heap as a whole -/

/-- `malloc` has put the record of the new heap and its first page apart, and each page after it. -/
def MallocedAlong (pagesize : ℤ) (addr page : ℕ) (calls : List HeapCall) : Prop :=
  ∀ h, agMHNew pagesize addr page = .ok h →
    h.mem.blocks.Pairwise Block.Apart ∧ (∀ b ∈ h.mem.blocks, b.addr ≠ 0) ∧ Along (silent heapStep) Malloced h calls

/-- The regions `_agMH_alloc` hands out do not overlap and are inside pages; the pages are the list from `current` on,
and `_agMH_delete` frees each of them once, and the record of the heap. -/
theorem agMH_disjoint (pagesize : ℤ) (addr page : ℕ) (calls : List HeapCall) (hpage : pagesize ≤ 2 ^ 30)
    (hsizes : ∀ c ∈ calls, 0 ≤ c.size ∧ c.size ≤ 2 ^ 31 - 4) (hmalloc : MallocedAlong pagesize addr page calls) :
    ∃ h₀ h answers m, agMHNew pagesize addr page = .ok h₀ ∧ exec heapStep h₀ calls = .ok (h, answers) ∧
      (regions calls answers).length = calls.length ∧ (regions calls answers).Pairwise Block.Apart ∧
      (∀ r ∈ regions calls answers, ∃ b ∈ h.pages, r.Inside b) ∧
      Chain h.mem.next id 0 h.current (h.pages.map Block.addr) ∧
      agMHDelete h = .ok m ∧ m.freed = h.pages.map Block.addr ++ [addr] ∧ m.freed.Nodup ∧ m.blocks = [] := by
  obtain ⟨h₀, hnew, haddr₀, -, hlaid⟩ := agMHNew_laid hpage addr page
  obtain ⟨hplaced, hnonnull, hrun⟩ := hmalloc h₀ hnew
  obtain ⟨h, answers, first, older, hexec, hlen, haddr, hl⟩ := heapRun_laid calls (hlaid hplaced hnonnull) hsizes hrun
  rw [nil_append] at hl
  have hnodup := hl.nodup
  rw [hl.blocks, map_append] at hnodup
  have haddr' : h.addr = addr := haddr.trans haddr₀
  refine ⟨h₀, h, answers, _, hnew, hexec, ?_, hl.apart, ?_, ?_, agMHDelete_ok hl, ?_, hnodup, rfl⟩
  · simp [regions, hlen]
  · intro r hr
    rw [hl.pages_eq]
    exact hl.in_page hr
  · rw [hl.pages_eq]
    exact hl.chain
  · rw [hl.pages_eq, ← haddr']

theorem agMH_disjoint_oversized :
    ∃ h₀ h answers m, agMHNew 1000 16 4096 = .ok h₀ ∧
      exec heapStep h₀ [⟨1000, 0⟩, ⟨1024, 8192⟩, ⟨0, 0⟩, ⟨5000, 16384⟩] = .ok (h, answers) ∧
      (regions [⟨1000, 0⟩, ⟨1024, 8192⟩, ⟨0, 0⟩, ⟨5000, 16384⟩] answers).length = 4 ∧
      (regions [⟨1000, 0⟩, ⟨1024, 8192⟩, ⟨0, 0⟩, ⟨5000, 16384⟩] answers).Pairwise Block.Apart ∧
      (∀ r ∈ regions [⟨1000, 0⟩, ⟨1024, 8192⟩, ⟨0, 0⟩, ⟨5000, 16384⟩] answers, ∃ b ∈ h.pages, r.Inside b) ∧
      Chain h.mem.next id 0 h.current (h.pages.map Block.addr) ∧
      agMHDelete h = .ok m ∧ m.freed = h.pages.map Block.addr ++ [16] ∧ m.freed.Nodup ∧ m.blocks = [] := by
  refine agMH_disjoint 1000 16 4096 [⟨1000, 0⟩, ⟨1024, 8192⟩, ⟨0, 0⟩, ⟨5000, 16384⟩] (by decide) (by decide) ?_
  intro h hnew
  obtain rfl := ok_unique hnew rfl
  exact ⟨by decide, by decide, by decide⟩

end CServer.Framework
