import CServer.Lib.Exec
import CServer.Lib.DList

/-! # `world/timer.c`: the timer wheel

One list of timers for each second modulo `MAX_TIMER`. `module_timer_update(now)` goes through the seconds up to `now`, takes
the list off the slot of each and calls the callbacks of its timers one by one. Callbacks may add and remove timers, so the
model runs it in steps.

A timer is an address, and addresses are handed out in the order of the `timer_add` calls that return one, so that timer `a`
was added before timer `b` when `a < b`. Not part of the program are `fires`, `fired` and `removed`: the second in which the
wheel reaches a timer next, the callbacks invoked with their seconds, and the timers removed.
-/
namespace CServer.World
open CServer.Lib Function List Nat

/-! ## The code -/

def maxTimer : ℕ := 3600

/-- Where `module_timer_update` is: not running, before the test of its `for` loop, before the test
of `while(list)`, or in the callback of a timer. -/
inductive TimerPc
  | outside
  | seconds (now : ℕ)
  | second (now : ℕ) (list : Option ℕ)
  | callback (now : ℕ) (list : Option ℕ) (timer : ℕ)

structure Wheel where
  heap : DHeap
  due : ℕ → ℕ
  timerList : ℕ → Option ℕ
  next : ℕ
  fresh : ℕ
  pc : TimerPc
  fires : ℕ → ℕ
  fired : List (ℕ × ℕ)
  removed : List ℕ

def moduleTimerLoad (now : ℕ) : Wheel :=
  ⟨⟨fun _ => false, fun _ => none, fun _ => none⟩, fun _ => 0, fun _ => none, now, 0, .outside, fun _ => 0, [], []⟩

def TimerPc.list : TimerPc → Option ℕ
  | .second _ list => list
  | .callback _ list _ => list
  | _ => none

/-- The second `manager.next` is being processed: its list is off the slot. -/
def TimerPc.inSecond : TimerPc → Bool
  | .second _ _ => true
  | .callback _ _ _ => true
  | _ => false

def TimerPc.yields : TimerPc → Bool
  | .outside => true
  | .callback _ _ _ => true
  | _ => false

/-- `timer_add`; `ok` says whether `malloc` succeeds. -/
def timerAdd (w : Wheel) (due : ℕ) (ok : Bool) : Except Fault (Wheel × Option ℕ) :=
  if due < w.next ∨ w.next + maxTimer ≤ due then .ok (w, none)
  else if ok = false then .ok (w, none)
  else do
    let timer := w.fresh
    let pos := due % maxTimer
    let (heap, list) ← dlistInsertTail (w.heap.alloc timer) (w.timerList pos) timer
    .ok ({ w with
      heap := heap
      due := update w.due timer due
      timerList := update w.timerList pos list
      fresh := w.fresh + 1
      fires := update w.fires timer (if w.pc.inSecond ∧ due = w.next then due + maxTimer else due) },
      some timer)

def timerRemove (w : Wheel) (timer : ℕ) : Except Fault Wheel := do
  w.heap.access timer
  let pos := w.due timer % maxTimer
  assert (decide (w.heap.next timer ≠ none ∧ w.heap.prev timer ≠ none))
  let (heap, list) ← dlistRemove w.heap (w.timerList pos) timer
  .ok { w with
    heap := heap.free timer
    timerList := update w.timerList pos list
    removed := timer :: w.removed }

/-- `module_timer_update` goes on to the next point where it tests or calls something. -/
def moduleTimerUpdate (w : Wheel) : Except Fault Wheel :=
  match w.pc with
  | .outside => .ok w
  | .seconds now =>
    if w.next ≤ now then
      let pos := w.next % maxTimer
      .ok { w with timerList := update w.timerList pos none, pc := .second now (w.timerList pos) }
    else .ok { w with pc := .outside }
  | .second now none => .ok { w with next := w.next + 1, pc := .seconds now }
  | .second now (some timer) => do
    let (heap, list) ← dlistRemove w.heap (some timer) timer
    .ok { w with heap := heap, pc := .callback now list timer, fired := w.fired ++ [(timer, w.next)] }
  | .callback now list timer => do
    w.heap.access timer
    .ok { w with heap := w.heap.free timer, pc := .second now list }

inductive TimerAct
  | add (due : ℕ) (ok : Bool)
  | remove (timer : ℕ)
  | update (now : ℕ)
  | step

def Wheel.step (w : Wheel) : TimerAct → Except Fault Wheel
  | .add due ok =>
    if w.pc.yields then do
      let (w, _) ← timerAdd w due ok
      .ok w
    else .ok w
  | .remove timer => if w.pc.yields then timerRemove w timer else .ok w
  | .update now =>
    match w.pc with
    | .outside => .ok { w with pc := .seconds now }
    | _ => .ok w
  | .step => moduleTimerUpdate w

/-! ## The invariant -/

def Wheel.pending (w : Wheel) (timer : ℕ) : Prop :=
  timer < w.fresh ∧ timer ∉ w.fired.map Prod.fst ∧ timer ∉ w.removed

def Wheel.window (w : Wheel) (s : ℕ) : Prop :=
  if w.pc.inSecond then w.next < s ∧ s ≤ w.next + maxTimer else w.next ≤ s ∧ s < w.next + maxTimer

/-- `rows p` are the timers of slot `p`, `cur` those of the local list. -/
structure Wheel.Ok (w : Wheel) (rows : ℕ → List ℕ) (cur : List ℕ) : Prop where
  slot : ∀ p < maxTimer, DRing w.heap (rows p) ∧ w.timerList p = (rows p).head?
  list : DRing w.heap cur ∧ w.pc.list = cur.head?
  place : ∀ p < maxTimer, ∀ a ∈ rows p, w.fires a % maxTimer = p ∧ w.window (w.fires a)
  now : ∀ a ∈ cur, w.fires a = w.next
  apart : ∀ p < maxTimer, ∀ a ∈ rows p, a ∉ cur
  due : ∀ a < w.fresh, w.fires a = w.due a ∨ w.fires a = w.due a + maxTimer
  pending : ∀ a, w.pending a ↔ a ∈ cur ∨ ∃ p < maxTimer, a ∈ rows p
  running : ∀ now list t, w.pc = .callback now list t → w.heap.alive t = true ∧ t ∈ w.fired.map Prod.fst
  once : (w.fired.map Prod.fst).Nodup
  past : ∀ x ∈ w.fired, x.1 < w.fresh ∧ x.2 = w.fires x.1 ∧ if w.pc.inSecond then x.2 ≤ w.next else x.2 < w.next
  gone : ∀ t ∈ w.removed, t < w.fresh ∧ t ∉ w.fired.map Prod.fst ∧ w.heap.alive t = false
  sorted : (∀ p < maxTimer, (rows p).Pairwise (· < ·)) ∧ cur.Pairwise (· < ·)
  order : w.fired.Pairwise (fun x y => x.2 = y.2 → x.1 < y.1) ∧ ∀ x ∈ w.fired, x.2 = w.next → ∀ a ∈ cur, x.1 < a

theorem moduleTimerLoad_ok (now : ℕ) : (moduleTimerLoad now).Ok (fun _ => []) [] := by
  refine ⟨fun _ _ => ⟨dring_nil, rfl⟩, ⟨dring_nil, rfl⟩, ?_, ?_, ?_, ?_, ?_, ?_, nodup_nil, ?_, ?_, ?_, ?_⟩
  · exact fun _ _ a ha => absurd ha (by simp)
  · exact fun a ha => absurd ha (by simp)
  · exact fun _ _ a ha => absurd ha (by simp)
  · exact fun a ha => absurd ha (by simp [moduleTimerLoad])
  · intro a
    simp [Wheel.pending, moduleTimerLoad]
  · intro now list t h
    cases h
  · exact fun x hx => absurd hx (by simp [moduleTimerLoad])
  · exact fun t ht => absurd ht (by simp [moduleTimerLoad])
  · exact ⟨fun _ _ => List.Pairwise.nil, List.Pairwise.nil⟩
  · exact ⟨List.Pairwise.nil, fun x hx => absurd hx (by simp [moduleTimerLoad])⟩

variable {w : Wheel} {rows : ℕ → List ℕ} {cur : List ℕ}

theorem Wheel.Ok.cur_nil (h : w.Ok rows cur) (hlist : w.pc.list = none) : cur = [] := by
  rw [h.list.2] at hlist
  exact List.head?_eq_none_iff.mp hlist

theorem Wheel.Ok.live (h : w.Ok rows cur) {p a : ℕ} (hp : p < maxTimer) (ha : a ∈ rows p) : w.pending a :=
  (h.pending a).mpr (.inr ⟨p, hp, ha⟩)

theorem Wheel.Ok.live_cur (h : w.Ok rows cur) {a : ℕ} (ha : a ∈ cur) : w.pending a :=
  (h.pending a).mpr (.inl ha)

theorem Wheel.Ok.rows_apart (h : w.Ok rows cur) {p q a : ℕ} (hp : p < maxTimer) (hq : q < maxTimer)
    (hap : a ∈ rows p) (haq : a ∈ rows q) : p = q :=
  (h.place p hp a hap).1.symm.trans (h.place q hq a haq).1

theorem Wheel.Ok.due_mod (h : w.Ok rows cur) {a : ℕ} (ha : a < w.fresh) :
    w.due a % maxTimer = w.fires a % maxTimer := by
  rcases h.due a ha with he | he
  · rw [he]
  · rw [he, add_mod_right]

theorem Wheel.Ok.place_between (h : w.Ok rows cur) (hsec : w.pc.inSecond = false) {p a : ℕ} (hp : p < maxTimer)
    (ha : a ∈ rows p) : w.fires a % maxTimer = p ∧ w.next ≤ w.fires a ∧ w.fires a < w.next + maxTimer := by
  have hold := h.place p hp a ha
  rw [Wheel.window, hsec] at hold
  exact hold

theorem Wheel.Ok.place_within (h : w.Ok rows cur) (hsec : w.pc.inSecond = true) {p a : ℕ} (hp : p < maxTimer)
    (ha : a ∈ rows p) : w.fires a % maxTimer = p ∧ w.next < w.fires a ∧ w.fires a ≤ w.next + maxTimer := by
  have hold := h.place p hp a ha
  rw [Wheel.window, hsec] at hold
  exact hold

theorem Wheel.Ok.past_between (h : w.Ok rows cur) (hsec : w.pc.inSecond = false) {x : ℕ × ℕ} (hx : x ∈ w.fired) :
    x.1 < w.fresh ∧ x.2 = w.fires x.1 ∧ x.2 < w.next := by
  have hold := h.past x hx
  rw [hsec] at hold
  exact hold

theorem Wheel.Ok.past_within (h : w.Ok rows cur) (hsec : w.pc.inSecond = true) {x : ℕ × ℕ} (hx : x ∈ w.fired) :
    x.1 < w.fresh ∧ x.2 = w.fires x.1 ∧ x.2 ≤ w.next := by
  have hold := h.past x hx
  rw [hsec] at hold
  exact hold

/-! ## The steps of `module_timer_update` -/

theorem Wheel.Ok.setPc (h : w.Ok rows cur) {pc : TimerPc} (hlist : pc.list = w.pc.list)
    (hsec : pc.inSecond = w.pc.inSecond) (hrun : ∀ now list t, pc ≠ .callback now list t) :
    Wheel.Ok { w with pc := pc } rows cur := by
  refine ⟨h.slot, ⟨h.list.1, hlist.trans h.list.2⟩, fun p hp a ha => ?_, h.now, h.apart, h.due, h.pending, ?_, h.once,
    fun x hx => ?_, h.gone, h.sorted, h.order⟩
  · have hplace := h.place p hp a ha
    rw [Wheel.window, ← hsec] at hplace
    exact hplace
  · intro now list t he
    exact absurd he (hrun now list t)
  · have hpast := h.past x hx
    rw [← hsec] at hpast
    exact hpast

theorem Wheel.Ok.enter (h : w.Ok rows cur) (hpc : w.pc = .outside) (now : ℕ) :
    Wheel.Ok { w with pc := .seconds now } rows cur := by
  refine h.setPc ?_ ?_ (fun _ _ _ he => by cases he)
  · rw [hpc]
    rfl
  · rw [hpc]
    rfl

theorem Wheel.Ok.leave (h : w.Ok rows cur) {now : ℕ} (hpc : w.pc = .seconds now) :
    Wheel.Ok { w with pc := .outside } rows cur := by
  refine h.setPc ?_ ?_ (fun _ _ _ he => by cases he)
  · rw [hpc]
    rfl
  · rw [hpc]
    rfl

theorem Wheel.Ok.detach (h : w.Ok rows cur) {now : ℕ} (hpc : w.pc = .seconds now) :
    Wheel.Ok { w with
      timerList := update w.timerList (w.next % maxTimer) none
      pc := .second now (w.timerList (w.next % maxTimer)) }
      (update rows (w.next % maxTimer) []) (rows (w.next % maxTimer)) := by
  have hmax : maxTimer = 3600 := rfl
  have hpos : w.next % maxTimer < maxTimer := mod_lt _ (by omega)
  have hnil : cur = [] := h.cur_nil (by rw [hpc]; rfl)
  subst hnil
  have hsec : w.pc.inSecond = false := by rw [hpc]; rfl
  have hmem : ∀ p a, a ∈ update rows (w.next % maxTimer) [] p → p ≠ w.next % maxTimer ∧ a ∈ rows p := by
    intro p a ha
    by_cases hp : p = w.next % maxTimer
    · subst hp
      rw [update_self] at ha
      exact absurd ha (by simp)
    · rw [update_of_ne hp] at ha
      exact ⟨hp, ha⟩
  refine ⟨fun p hp => ?_, ⟨(h.slot _ hpos).1, (h.slot _ hpos).2⟩, fun p hp a ha => ?_, fun a ha => ?_,
    fun p hp a ha => ?_, h.due, fun a => ?_, ?_, h.once, fun x hx => ?_, h.gone,
    ⟨fun p hp => ?_, h.sorted.1 _ hpos⟩, h.order.1, ?_⟩
  · by_cases he : p = w.next % maxTimer
    · subst he
      simp only [update_self]
      exact ⟨dring_nil, rfl⟩
    · simp only [update_of_ne he]
      exact h.slot p hp
  · obtain ⟨hne, ha⟩ := hmem p a ha
    obtain ⟨h1, h2, h3⟩ := h.place_between hsec hp ha
    refine ⟨h1, ?_⟩
    show w.next < w.fires a ∧ w.fires a ≤ w.next + maxTimer
    have : w.fires a ≠ w.next := by
      intro he
      rw [he] at h1
      exact hne h1.symm
    omega
  · obtain ⟨h1, h2, h3⟩ := h.place_between hsec hpos ha
    show w.fires a = w.next
    rw [hmax] at h1 h3
    omega
  · obtain ⟨hne, ha⟩ := hmem p a ha
    intro hcur
    exact hne (h.rows_apart hp hpos ha hcur)
  · refine (h.pending a).trans ?_
    constructor
    · rintro (ha | ⟨p, hp, ha⟩)
      · exact absurd ha (by simp)
      · by_cases he : p = w.next % maxTimer
        · exact .inl (he ▸ ha)
        · exact .inr ⟨p, hp, by rw [update_of_ne he]; exact ha⟩
    · rintro (ha | ⟨p, hp, ha⟩)
      · exact .inr ⟨_, hpos, ha⟩
      · exact .inr ⟨p, hp, (hmem p a ha).2⟩
  · intro now list t he
    cases he
  · obtain ⟨h1, h2, h3⟩ := h.past_between hsec hx
    exact ⟨h1, h2, Nat.le_of_lt h3⟩
  · by_cases he : p = w.next % maxTimer
    · subst he
      rw [update_self]
      exact List.Pairwise.nil
    · rw [update_of_ne he]
      exact h.sorted.1 p hp
  · intro x hx he
    have := (h.past_between hsec hx).2.2
    simp only at he
    omega

theorem Wheel.Ok.tick (h : w.Ok rows cur) {now : ℕ} (hpc : w.pc = .second now none) :
    Wheel.Ok { w with next := w.next + 1, pc := .seconds now } rows cur := by
  have hnil : cur = [] := h.cur_nil (by rw [hpc]; rfl)
  subst hnil
  have hsec : w.pc.inSecond = true := by rw [hpc]; rfl
  refine ⟨h.slot, ⟨dring_nil, rfl⟩, fun p hp a ha => ?_, fun a ha => absurd ha (by simp), h.apart, h.due, h.pending, ?_,
    h.once, fun x hx => ?_, h.gone, h.sorted, h.order.1, ?_⟩
  · obtain ⟨h1, h2, h3⟩ := h.place_within hsec hp ha
    refine ⟨h1, ?_⟩
    show w.next + 1 ≤ w.fires a ∧ w.fires a < w.next + 1 + maxTimer
    omega
  · intro now list t he
    cases he
  · obtain ⟨h1, h2, h3⟩ := h.past_within hsec hx
    exact ⟨h1, h2, lt_succ_of_le h3⟩
  · exact fun x _ _ a ha => absurd ha (by simp)

theorem Wheel.Ok.take (h : w.Ok rows cur) {now timer : ℕ} (hpc : w.pc = .second now (some timer)) :
    ∃ heap cs, cur = timer :: cs ∧ dlistRemove w.heap (some timer) timer = .ok (heap, cs.head?) ∧
      Wheel.Ok { w with heap := heap, pc := .callback now cs.head? timer, fired := w.fired ++ [(timer, w.next)] }
        rows cs := by
  have hhead : cur.head? = some timer := by
    rw [← h.list.2, hpc]
    rfl
  obtain ⟨cs, rfl⟩ : ∃ cs, cur = timer :: cs := by
    cases cur with
    | nil => simp at hhead
    | cons c cs => exact ⟨cs, by rw [Option.some.inj hhead]⟩
  obtain ⟨heap, hrem, hring, halive, -, hframe⟩ := @dlistRemove_own w.heap [] cs timer h.list.1
  obtain ⟨hfresh, hfired, hremoved⟩ := h.live_cur (mem_cons_self ..)
  have htimer : timer ∉ cs := (nodup_cons.mp h.list.1.nodup).1
  have hsec : w.pc.inSecond = true := by rw [hpc]; rfl
  have hfst : (w.fired ++ [(timer, w.next)]).map Prod.fst = w.fired.map Prod.fst ++ [timer] := by simp
  refine ⟨heap, cs, rfl, hrem, fun p hp => ⟨(h.slot p hp).1.congr fun a ha => ?_, (h.slot p hp).2⟩, ⟨hring, rfl⟩,
    fun p hp a ha => h.place_within hsec hp ha, fun a ha => h.now a (mem_cons_of_mem _ ha),
    fun p hp a ha hc => h.apart p hp a ha (mem_cons_of_mem _ hc), h.due, fun a => ?_, ?_, ?_, fun x hx => ?_, fun t ht => ?_,
    ⟨h.sorted.1, (pairwise_cons.mp h.sorted.2).2⟩, ?_, ?_⟩
  · obtain ⟨h1, h2⟩ := hframe a (h.apart p hp a ha)
    exact ⟨by rw [halive], h1, h2⟩
  · have hold := h.pending a
    rw [mem_cons] at hold
    simp only [Wheel.pending, hfst, mem_append, mem_singleton, not_or] at hold ⊢
    constructor
    · rintro ⟨h1, ⟨h2, h3⟩, h4⟩
      rcases hold.mp ⟨h1, h2, h4⟩ with (he | hc) | hr
      · exact absurd he h3
      · exact .inl hc
      · exact .inr hr
    · intro hmem
      have hne : a ≠ timer := by
        rintro rfl
        rcases hmem with hc | ⟨p, hp, ha⟩
        · exact htimer hc
        · exact h.apart p hp a ha (mem_cons_self ..)
      obtain ⟨h1, h2, h4⟩ := hold.mpr (hmem.imp_left .inr)
      exact ⟨h1, ⟨h2, hne⟩, h4⟩
  · intro now' list t he
    obtain ⟨-, -, rfl⟩ := TimerPc.callback.inj he
    refine ⟨?_, ?_⟩
    · show heap.alive timer = true
      rw [halive]
      exact h.list.1.alive timer (mem_cons_self ..)
    · simp
  · rw [hfst]
    exact nodup_append.mpr ⟨h.once, by simp, fun a ha b hb => by
      rw [mem_singleton.mp hb]; rintro rfl; exact hfired ha⟩
  · rcases mem_append.mp hx with hx | hx
    · exact h.past_within hsec hx
    · obtain rfl := mem_singleton.mp hx
      exact ⟨hfresh, (h.now timer (mem_cons_self ..)).symm, le_refl _⟩
  · obtain ⟨h1, h2, h3⟩ := h.gone t ht
    refine ⟨h1, ?_, (congrFun halive t).trans h3⟩
    rw [hfst]
    intro hmem
    rcases mem_append.mp hmem with hmem | hmem
    · exact h2 hmem
    · obtain rfl := mem_singleton.mp hmem
      exact hremoved ht
  · refine pairwise_append.mpr ⟨h.order.1, by simp, fun x hx y hy he => ?_⟩
    obtain rfl := mem_singleton.mp hy
    exact h.order.2 x hx he timer (mem_cons_self ..)
  · intro x hx he a ha
    rcases mem_append.mp hx with hx | hx
    · exact h.order.2 x hx he a (mem_cons_of_mem _ ha)
    · obtain rfl := mem_singleton.mp hx
      exact (pairwise_cons.mp h.sorted.2).1 a ha

theorem Wheel.Ok.finish (h : w.Ok rows cur) {now timer : ℕ} {list : Option ℕ} (hpc : w.pc = .callback now list timer) :
    w.heap.access timer = .ok () ∧
      Wheel.Ok { w with heap := w.heap.free timer, pc := .second now list } rows cur := by
  obtain ⟨halive, hfired⟩ := h.running now list timer hpc
  have hne : ∀ a, w.pending a → a ≠ timer := by
    rintro a ha rfl
    exact ha.2.1 hfired
  have hsame : ∀ a, w.pending a → (w.heap.free timer).alive a = w.heap.alive a := fun a ha =>
    update_of_ne (hne a ha) _ _
  have hsec : w.pc.inSecond = true := by rw [hpc]; rfl
  have hlist := h.list.2
  rw [hpc] at hlist
  refine ⟨DHeap.access_ok halive, fun p hp => ⟨(h.slot p hp).1.congr fun a ha => ?_, (h.slot p hp).2⟩,
    ⟨h.list.1.congr fun a ha => ?_, hlist⟩, fun p hp a ha => h.place_within hsec hp ha, h.now, h.apart, h.due, h.pending,
    ?_, h.once, fun x hx => h.past_within hsec hx, fun t ht => ?_, h.sorted, h.order⟩
  · exact ⟨hsame a (h.live hp ha), rfl, rfl⟩
  · exact ⟨hsame a (h.live_cur ha), rfl, rfl⟩
  · intro now list t he
    cases he
  · obtain ⟨h1, h2, h3⟩ := h.gone t ht
    exact ⟨h1, h2, DHeap.free_dead h3⟩

/-! ## Adding -/

theorem mem_row_append {p q n a : ℕ} :
    a ∈ update rows p (rows p ++ [n]) q ↔ a ∈ rows q ∨ a = n ∧ q = p := by
  by_cases hq : q = p
  · subst hq
    rw [update_self, mem_append, mem_singleton, and_iff_left rfl]
  · rw [update_of_ne hq]
    simp only [hq, and_false, or_false]

theorem Wheel.Ok.fresh_new (h : w.Ok rows cur) : w.fresh ∉ w.fired.map Prod.fst ∧ w.fresh ∉ w.removed := by
  refine ⟨fun hf => ?_, fun hr => Nat.lt_irrefl _ (h.gone _ hr).1⟩
  obtain ⟨x, hx, he⟩ := mem_map.mp hf
  have := (h.past x hx).1
  omega

theorem Wheel.window_added {due : ℕ} (hlo : w.next ≤ due) (hhi : due < w.next + maxTimer) :
    (if w.pc.inSecond ∧ due = w.next then due + maxTimer else due) % maxTimer = due % maxTimer ∧
      w.window (if w.pc.inSecond ∧ due = w.next then due + maxTimer else due) := by
  have hmax : maxTimer = 3600 := rfl
  unfold Wheel.window
  by_cases hsec : w.pc.inSecond = true
  · by_cases hdue : due = w.next
    · simp only [hsec, hdue, and_self, if_true, add_mod_right, true_and]
      omega
    · simp only [hsec, hdue, and_false, if_false, if_true, true_and]
      omega
  · simp only [hsec, Bool.false_eq_true, false_and, if_false, true_and]
    exact ⟨hlo, hhi⟩

theorem Wheel.Ok.insert_slot (h : w.Ok rows cur) {p : ℕ} (hp : p < maxTimer) :
    ∃ heap, dlistInsertTail (w.heap.alloc w.fresh) (w.timerList p) w.fresh = .ok (heap, (rows p ++ [w.fresh]).head?) ∧
      DRing heap (rows p ++ [w.fresh]) ∧ ∀ a, a ∉ rows p → a ≠ w.fresh →
        heap.alive a = w.heap.alive a ∧ heap.next a = w.heap.next a ∧ heap.prev a = w.heap.prev a := by
  have hne : ∀ a ∈ rows p, a ≠ w.fresh := fun a ha => Nat.ne_of_lt (h.live hp ha).1
  have hring₁ : DRing (w.heap.alloc w.fresh) (rows p) := by
    refine (h.slot p hp).1.congr fun a ha => ?_
    simp only [DHeap.alloc, update_of_ne (hne a ha), and_self]
  obtain ⟨heap, hins, hring, halive, hframe⟩ := dlistInsertTail_ok hring₁ (fun hmem => hne _ hmem rfl)
    (by simp only [DHeap.alloc, update_self]) (by simp only [DHeap.alloc, update_self, and_self])
  rw [← (h.slot p hp).2] at hins
  refine ⟨heap, hins, hring, fun a ha hna => ?_⟩
  obtain ⟨h1, h2⟩ := hframe a ha hna
  rw [halive, h1, h2]
  simp only [DHeap.alloc, update_of_ne hna, and_self]

theorem Wheel.Ok.add (h : w.Ok rows cur) {due : ℕ} (hlo : w.next ≤ due) (hhi : due < w.next + maxTimer) :
    ∃ w' rows', timerAdd w due true = .ok (w', some w.fresh) ∧ w'.Ok rows' cur := by
  have hpos : due % maxTimer < maxTimer := mod_lt _ (by norm_num [maxTimer])
  have hne : ∀ a, w.pending a → a ≠ w.fresh := fun a ha => Nat.ne_of_lt ha.1
  obtain ⟨hfired, hremoved⟩ := h.fresh_new
  obtain ⟨heap, hins, hring, hsame⟩ := h.insert_slot hpos
  have hfires : ∀ a, w.pending a → update w.fires w.fresh
      (if w.pc.inSecond ∧ due = w.next then due + maxTimer else due) a = w.fires a := fun a ha =>
    update_of_ne (hne a ha) _ _
  have hadd : timerAdd w due true = .ok ({ w with
      heap := heap
      due := update w.due w.fresh due
      timerList := update w.timerList (due % maxTimer) (rows (due % maxTimer) ++ [w.fresh]).head?
      fresh := w.fresh + 1
      fires := update w.fires w.fresh (if w.pc.inSecond ∧ due = w.next then due + maxTimer else due) },
      some w.fresh) := by
    have hwin : ¬ (due < w.next ∨ w.next + maxTimer ≤ due) := by omega
    simp only [timerAdd, hwin, if_false, Bool.true_eq_false, hins, ok_bind]
  refine ⟨_, update rows (due % maxTimer) (rows (due % maxTimer) ++ [w.fresh]), hadd, fun p hp => ?_,
    ⟨h.list.1.congr fun a ha => ?_, h.list.2⟩, fun p hp a ha => ?_, fun a ha => ?_, fun p hp a ha => ?_, fun a ha => ?_,
    fun a => ?_, ?_, h.once, fun x hx => ?_, fun t ht => ?_, ⟨fun p hp => ?_, h.sorted.2⟩, h.order⟩
  · by_cases he : p = due % maxTimer
    · subst he
      simp only [update_self]
      exact ⟨hring, trivial⟩
    · simp only [update_of_ne he]
      refine ⟨(h.slot p hp).1.congr fun a ha => hsame a ?_ (hne a (h.live hp ha)), (h.slot p hp).2⟩
      exact fun hmem => he (h.rows_apart hp hpos ha hmem)
  · exact hsame a (fun hmem => h.apart _ hpos a hmem ha) (hne a (h.live_cur ha))
  · rcases mem_row_append.mp ha with ha | ⟨rfl, rfl⟩
    · simp only [hfires a (h.live hp ha)]
      exact h.place p hp a ha
    · simp only [update_self]
      exact Wheel.window_added hlo hhi
  · simp only [hfires a (h.live_cur ha)]
    exact h.now a ha
  · rcases mem_row_append.mp ha with ha | ⟨rfl, rfl⟩
    · exact h.apart p hp a ha
    · exact fun hc => hne _ (h.live_cur hc) rfl
  · by_cases hnew : a = w.fresh
    · subst hnew
      simp only [update_self]
      split
      · exact .inr rfl
      · exact .inl rfl
    · simp only [update_of_ne hnew]
      exact h.due a (by simp only at ha; omega)
  · by_cases hnew : a = w.fresh
    · subst hnew
      refine ⟨fun _ => .inr ⟨_, hpos, ?_⟩, fun _ => ⟨lt_succ_self _, hfired, hremoved⟩⟩
      exact mem_row_append.mpr (.inr ⟨rfl, rfl⟩)
    · have hold := h.pending a
      have hlt : a < w.fresh + 1 ↔ a < w.fresh := by omega
      simp only [Wheel.pending, hlt] at hold ⊢
      simp only [hold, mem_row_append, hnew, false_and, or_false]
  · intro now list t he
    obtain ⟨h1, h2⟩ := h.running now list t he
    refine ⟨?_, h2⟩
    have htf : t ≠ w.fresh := by
      rintro rfl
      exact hfired h2
    exact (hsame t (fun hm => (h.live hpos hm).2.1 h2) htf).1.trans h1
  · obtain ⟨h1, h2, h3⟩ := h.past x hx
    have hxf : x.1 ≠ w.fresh := Nat.ne_of_lt h1
    simp only [update_of_ne hxf]
    exact ⟨lt_succ_of_lt h1, h2, h3⟩
  · obtain ⟨h1, h2, h3⟩ := h.gone t ht
    refine ⟨lt_succ_of_lt h1, h2, ?_⟩
    exact (hsame t (fun hm => (h.live hpos hm).2.2 ht) (Nat.ne_of_lt h1)).1.trans h3
  · by_cases he : p = due % maxTimer
    · subst he
      rw [update_self]
      refine pairwise_append.mpr ⟨h.sorted.1 _ hp, by simp, fun a ha b hb => ?_⟩
      rw [mem_singleton.mp hb]
      exact (h.live hp ha).1
    · rw [update_of_ne he]
      exact h.sorted.1 p hp

/-! ## Removing -/

theorem Wheel.Ok.linked (h : w.Ok rows cur) {t : ℕ} (ht : w.pending t) :
    w.heap.alive t = true ∧ w.heap.next t ≠ none ∧ w.heap.prev t ≠ none := by
  have hring : ∃ xs, DRing w.heap xs ∧ t ∈ xs := by
    rcases (h.pending t).mp ht with hc | ⟨p, hp, ha⟩
    · exact ⟨cur, h.list.1, hc⟩
    · exact ⟨rows p, (h.slot p hp).1, ha⟩
  obtain ⟨xs, hr, hmem⟩ := hring
  obtain ⟨ys, zs, rfl⟩ := append_of_mem hmem
  have hrot : DRing w.heap (t :: (zs ++ ys)) := by
    have := hr.rotate
    rwa [cons_append] at this
  refine ⟨hr.alive t hmem, ?_, ?_⟩
  · rw [hrot.next_of]
    simp
  · rw [hrot.prev_of]
    simp

theorem Wheel.Ok.drop (h : w.Ok rows cur) {t : ℕ} (ht : w.pending t) {heap : DHeap} {timerList : ℕ → Option ℕ}
    {rows' : ℕ → List ℕ} {cur' : List ℕ} (halive : heap.alive = w.heap.alive)
    (hslot : ∀ p < maxTimer, DRing heap (rows' p) ∧ timerList p = (rows' p).head?)
    (hlist : DRing heap cur' ∧ w.pc.list = cur'.head?)
    (hrows : ∀ p, (rows' p).Sublist (rows p)) (hcur : cur'.Sublist cur)
    (hmem : ∀ a, (a ∈ cur' ∨ ∃ p < maxTimer, a ∈ rows' p) ↔ a ≠ t ∧ (a ∈ cur ∨ ∃ p < maxTimer, a ∈ rows p)) :
    Wheel.Ok { w with heap := heap.free t, timerList := timerList, removed := t :: w.removed } rows' cur' := by
  have hne : ∀ a, (a ∈ cur' ∨ ∃ p < maxTimer, a ∈ rows' p) → (heap.free t).alive a = heap.alive a := fun a ha =>
    update_of_ne ((hmem a).mp ha).1 _ _
  refine ⟨fun p hp => ⟨(hslot p hp).1.congr fun a ha => ⟨hne a (.inr ⟨p, hp, ha⟩), rfl, rfl⟩, (hslot p hp).2⟩,
    ⟨hlist.1.congr fun a ha => ⟨hne a (.inl ha), rfl, rfl⟩, hlist.2⟩,
    fun p hp a ha => h.place p hp a ((hrows p).subset ha), fun a ha => h.now a (hcur.subset ha),
    fun p hp a ha hc => h.apart p hp a ((hrows p).subset ha) (hcur.subset hc), h.due, fun a => ?_, ?_, h.once, h.past, ?_,
    ⟨fun p hp => (h.sorted.1 p hp).sublist (hrows p), h.sorted.2.sublist hcur⟩, h.order.1,
    fun x hx he a ha => h.order.2 x hx he a (hcur.subset ha)⟩
  · rw [hmem, ← h.pending]
    simp only [Wheel.pending, mem_cons, not_or]
    constructor
    · rintro ⟨h1, h2, h3, h4⟩
      exact ⟨h3, h1, h2, h4⟩
    · rintro ⟨h3, h1, h2, h4⟩
      exact ⟨h1, h2, h3, h4⟩
  · intro now list s he
    obtain ⟨h1, h2⟩ := h.running now list s he
    refine ⟨?_, h2⟩
    have hst : s ≠ t := by
      rintro rfl
      exact ht.2.1 h2
    show update heap.alive t false s = true
    rw [update_of_ne hst, halive]
    exact h1
  · intro s hs
    rcases mem_cons.mp hs with rfl | hs
    · exact ⟨ht.1, ht.2.1, update_self ..⟩
    · obtain ⟨h1, h2, h3⟩ := h.gone s hs
      exact ⟨h1, h2, DHeap.free_dead ((congrFun halive s).trans h3)⟩

theorem Wheel.Ok.remove_local (h : w.Ok rows cur) {t : ℕ} (ht : w.pending t) (hc : t ∈ cur)
    (hnext : w.pc.list ≠ some t) : ∃ w' cur', timerRemove w t = .ok w' ∧ w'.Ok rows cur' ∧ w'.pc = w.pc := by
  obtain ⟨halive, hn, hp⟩ := h.linked ht
  have hpos : w.due t % maxTimer < maxTimer := mod_lt _ (by norm_num [maxTimer])
  obtain ⟨ys, zs, rfl⟩ := append_of_mem hc
  have hys : ys ≠ [] := by
    rintro rfl
    rw [h.list.2] at hnext
    exact hnext rfl
  have hl : w.timerList (w.due t % maxTimer) ≠ some t := by
    rw [(h.slot _ hpos).2]
    exact fun he => h.apart _ hpos t (List.mem_of_head? he) hc
  obtain ⟨heap, hrem, hring, halive', -, hframe⟩ := dlistRemove_other h.list.1 hl (by simp [hys])
  have hw : timerRemove w t = .ok { w with
      heap := heap.free t
      timerList := w.timerList
      removed := t :: w.removed } := by
    simp only [timerRemove, DHeap.access_ok halive, ok_bind, hn, hp, ne_eq, not_false_eq_true, and_self, decide_true,
      assert_true, hrem, update_eq_self]
  refine ⟨_, ys ++ zs, hw, h.drop ht halive' (fun q hq => ⟨(h.slot q hq).1.congr fun a ha => ?_, (h.slot q hq).2⟩)
    ⟨hring, ?_⟩ (fun _ => Sublist.refl _) ((sublist_cons_self t zs).append_left ys) (fun a => ?_), rfl⟩
  · obtain ⟨h1, h2⟩ := hframe a (h.apart q hq a ha)
    exact ⟨by rw [halive'], h1, h2⟩
  · rw [h.list.2]
    cases ys with
    | nil => exact absurd rfl hys
    | cons y ys => rfl
  · have hrow : (∃ p < maxTimer, a ∈ rows p) → a ≠ t := by
      rintro ⟨q, hq, haq⟩ rfl
      exact h.apart q hq a haq hc
    rw [h.list.1.mem_without, and_or_left, and_iff_right_of_imp hrow]

theorem Wheel.Ok.remove_slot (h : w.Ok rows cur) {t p : ℕ} (ht : w.pending t) (hp : p < maxTimer) (ha : t ∈ rows p) :
    ∃ w' rows', timerRemove w t = .ok w' ∧ w'.Ok rows' cur ∧ w'.pc = w.pc := by
  obtain ⟨halive, hn, hprev⟩ := h.linked ht
  have hpeq : w.due t % maxTimer = p := (h.due_mod ht.1).trans (h.place p hp t ha).1
  obtain ⟨ys, zs, hrow⟩ := append_of_mem ha
  obtain ⟨hring₀, hslot⟩ := h.slot p hp
  rw [hrow] at hring₀ hslot
  obtain ⟨heap, hrem, hring, halive', -, hframe⟩ := dlistRemove_own hring₀
  rw [← hslot] at hrem
  have hw : timerRemove w t = .ok { w with
      heap := heap.free t
      timerList := update w.timerList p (ys ++ zs).head?
      removed := t :: w.removed } := by
    simp only [timerRemove, DHeap.access_ok halive, ok_bind, hn, hprev, ne_eq, not_false_eq_true, and_self, decide_true,
      assert_true, hpeq, hrem]
  have hmem : ∀ q < maxTimer, ∀ a, a ∈ update rows p (ys ++ zs) q ↔ a ≠ t ∧ a ∈ rows q := by
    intro q hq a
    by_cases he : q = p
    · subst he
      rw [update_self, hring₀.mem_without, hrow]
    · rw [update_of_ne he]
      refine (and_iff_right_of_imp fun hm => ?_).symm
      rintro rfl
      exact he (h.rows_apart hq hp hm ha)
  refine ⟨_, update rows p (ys ++ zs), hw, h.drop ht halive' (fun q hq => ?_)
    ⟨h.list.1.congr fun a hc => ?_, h.list.2⟩ (fun q => ?_) (Sublist.refl _) (fun a => ?_), rfl⟩
  · by_cases he : q = p
    · subst he
      simp only [update_self]
      exact ⟨hring, trivial⟩
    · simp only [update_of_ne he]
      refine ⟨(h.slot q hq).1.congr fun a haq => ?_, (h.slot q hq).2⟩
      obtain ⟨h1, h2⟩ := hframe a (by rw [← hrow]; exact fun hap => he (h.rows_apart hq hp haq hap))
      exact ⟨by rw [halive'], h1, h2⟩
  · obtain ⟨h1, h2⟩ := hframe a (by rw [← hrow]; exact fun hap => h.apart p hp a hap hc)
    exact ⟨by rw [halive'], h1, h2⟩
  · by_cases he : q = p
    · subst he
      rw [update_self, hrow]
      exact (sublist_cons_self t zs).append_left ys
    · rw [update_of_ne he]
  · have hcur : a ∈ cur → a ≠ t := by
      rintro hc rfl
      exact h.apart p hp a ha hc
    have hrows : (∃ q < maxTimer, a ∈ update rows p (ys ++ zs) q) ↔ a ≠ t ∧ ∃ q < maxTimer, a ∈ rows q := by
      constructor
      · rintro ⟨q, hq, hm⟩
        exact ⟨((hmem q hq a).mp hm).1, q, hq, ((hmem q hq a).mp hm).2⟩
      · rintro ⟨hne, q, hq, hm⟩
        exact ⟨q, hq, (hmem q hq a).mpr ⟨hne, hm⟩⟩
    rw [hrows, and_or_left, and_iff_right_of_imp hcur]

theorem Wheel.Ok.remove (h : w.Ok rows cur) {t : ℕ} (ht : w.pending t) (hnext : w.pc.list ≠ some t) :
    ∃ w' rows' cur', timerRemove w t = .ok w' ∧ w'.Ok rows' cur' ∧ w'.pc = w.pc := by
  rcases (h.pending t).mp ht with hc | ⟨p, hp, ha⟩
  · obtain ⟨w', cur', hw, hok, hpc⟩ := h.remove_local ht hc hnext
    exact ⟨w', rows, cur', hw, hok, hpc⟩
  · obtain ⟨w', rows', hw, hok, hpc⟩ := h.remove_slot ht hp ha
    exact ⟨w', rows', cur, hw, hok, hpc⟩

end CServer.World
