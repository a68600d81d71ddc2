import Mathlib.Data.List.Basic
import Mathlib.Tactic.Common

/-
  Incremental decoding of a stream, over any alphabet and any type of messages.

  A `Decoder` looks at what is left of the stream and answers with a `Verdict`: wait for
  more, skip one element, emit a message that takes `n` elements, or reject a candidate of
  `n` elements. Its two laws say that a message or a candidate lies in what was looked at
  (`advance`) and that an answer other than `wait` does not change when more of the stream
  arrives (`stable`).

  `scan` runs a decoder from the left as far as it goes. `scan_append` is the law the rest
  uses: a scan of `xs ++ ys` is the scan of `xs` followed by a scan of what it left, `ys`
  appended. From it come the independence of segmentation (`feed_spec`) and the facts about
  where messages lie (`hits_slice`, `hits_sorted`, `scan_complete`).
-/

namespace StreamScan

universe u v

variable {α : Type u} {β : Type v}

/-- What a decoder makes of the head of the stream. -/
inductive Verdict (β : Type v) where
  | wait
  | skip
  | emit (msg : β) (len : Nat)
  | reject (len : Nat)
  deriving DecidableEq, Repr

/-- How many elements a verdict takes off the stream. -/
def Verdict.size : Verdict β → Nat
  | .wait => 0
  | .skip => 1
  | .emit _ n => n
  | .reject n => n

structure Decoder (α : Type u) (β : Type v) where
  verdict : List α → Verdict β
  /-- A verdict other than `wait` takes something, and no more than it was shown. -/
  advance : ∀ xs, verdict xs ≠ .wait → 0 < (verdict xs).size ∧ (verdict xs).size ≤ xs.length
  /-- A verdict other than `wait` stands when more of the stream arrives. -/
  stable : ∀ xs ys, verdict xs ≠ .wait → verdict (xs ++ ys) = verdict xs

/-- A message and the slice of the stream it was read from. -/
structure Hit (β : Type v) where
  start : Nat
  len : Nat
  msg : β
  deriving DecidableEq, Repr

def Hit.stop (h : Hit β) : Nat := h.start + h.len

def Hit.shift (k : Nat) (h : Hit β) : Hit β := { h with start := k + h.start }

/-- The outcome of a scan: the messages with their slices, what is left of the stream, and
    the slice of the rejected candidate if there was one. -/
structure Result (α : Type u) (β : Type v) where
  hits : List (Hit β)
  residue : List α
  rejected : Option (Nat × Nat)

namespace Result

def messages (r : Result α β) : List β := r.hits.map Hit.msg

/-- The same outcome, `k` elements further down the stream. -/
def shift (k : Nat) (r : Result α β) : Result α β :=
  { r with hits := r.hits.map (Hit.shift k), rejected := r.rejected.map fun p => (k + p.1, p.2) }

/-- The outcome with one more message in front. -/
def push (h : Hit β) (r : Result α β) : Result α β := { r with hits := h :: r.hits }

/-- The outcome with the messages of an earlier scan in front. -/
def prepend (hs : List (Hit β)) (r : Result α β) : Result α β := { r with hits := hs ++ r.hits }

/-- How far a scan of `len` elements got: to the rejected candidate, or to what it left. -/
def frontier (len : Nat) (r : Result α β) : Nat :=
  match r.rejected with
  | some p => p.1
  | none => len - r.residue.length

@[simp] theorem residue_shift (k : Nat) (r : Result α β) : (r.shift k).residue = r.residue := rfl

@[simp] theorem residue_push (h : Hit β) (r : Result α β) : (r.push h).residue = r.residue := rfl

@[simp] theorem rejected_push (h : Hit β) (r : Result α β) : (r.push h).rejected = r.rejected := rfl

@[simp] theorem rejected_shift_eq_none (k : Nat) (r : Result α β) :
    (r.shift k).rejected = none ↔ r.rejected = none := by
  simp [shift]

@[simp] theorem isSome_rejected_shift (k : Nat) (r : Result α β) :
    (r.shift k).rejected.isSome = r.rejected.isSome := by
  simp [shift]

@[simp] theorem messages_push (h : Hit β) (r : Result α β) :
    (r.push h).messages = h.msg :: r.messages := rfl

@[simp] theorem messages_prepend (hs : List (Hit β)) (r : Result α β) :
    (r.prepend hs).messages = hs.map Hit.msg ++ r.messages := by
  simp [messages, prepend]

theorem push_prepend (h : Hit β) (hs : List (Hit β)) (r : Result α β) :
    (r.prepend hs).push h = r.prepend (h :: hs) := rfl

theorem shift_prepend (k : Nat) (hs : List (Hit β)) (r : Result α β) :
    (r.prepend hs).shift k = (r.shift k).prepend (hs.map (Hit.shift k)) := by
  simp [shift, prepend]

theorem shift_push (k : Nat) (h : Hit β) (r : Result α β) :
    (r.push h).shift k = (r.shift k).push (h.shift k) := rfl

@[simp] theorem messages_shift (k : Nat) (r : Result α β) : (r.shift k).messages = r.messages := by
  simp [messages, shift, Function.comp_def, Hit.shift]

@[simp] theorem shift_zero (r : Result α β) : r.shift 0 = r := by
  cases r with | mk hs res rej =>
    have : Hit.shift (β := β) 0 = id := funext fun h => by simp [Hit.shift]
    simp [shift, this]

theorem shift_shift (j k : Nat) (r : Result α β) : (r.shift j).shift k = r.shift (k + j) := by
  simp [shift, Function.comp_def, Hit.shift, Nat.add_assoc]

end Result

/-! ## The scan -/

variable (d : Decoder α β)

theorem verdict_nil : d.verdict [] = .wait := by
  by_contra h
  have := d.advance [] h
  simp at this
  omega

/-- Run the decoder from the left until it waits or rejects. -/
def scan (xs : List α) : Result α β :=
  match _h : d.verdict xs with
  | .wait => ⟨[], xs, none⟩
  | .skip => (scan (xs.drop 1)).shift 1
  | .emit m n => ((scan (xs.drop n)).shift n).push ⟨0, n, m⟩
  | .reject n => ⟨[], xs.drop n, some (0, n)⟩
termination_by xs.length
decreasing_by
  all_goals
    have := d.advance xs (by rw [_h]; simp)
    rw [_h] at this
    simp only [Verdict.size] at this
    simp only [List.length_drop]
    omega

variable {d}

theorem scan_wait {xs : List α} (h : d.verdict xs = .wait) : scan d xs = ⟨[], xs, none⟩ := by
  rw [scan]
  split <;> simp_all

theorem scan_skip {xs : List α} (h : d.verdict xs = .skip) :
    scan d xs = (scan d (xs.drop 1)).shift 1 := by
  conv_lhs => rw [scan]
  split <;> simp_all

theorem scan_emit {xs : List α} {m : β} {n : Nat} (h : d.verdict xs = .emit m n) :
    scan d xs = ((scan d (xs.drop n)).shift n).push ⟨0, n, m⟩ := by
  conv_lhs => rw [scan]
  split <;> simp_all

theorem scan_reject {xs : List α} {n : Nat} (h : d.verdict xs = .reject n) :
    scan d xs = ⟨[], xs.drop n, some (0, n)⟩ := by
  rw [scan]
  split <;> simp_all

@[simp] theorem scan_nil : scan d [] = ⟨[], [], none⟩ := scan_wait (verdict_nil d)

theorem advance_of {xs : List α} {v : Verdict β} (h : d.verdict xs = v) (hv : v ≠ .wait) :
    0 < v.size ∧ v.size ≤ xs.length := by
  have := d.advance xs (by rw [h]; exact hv)
  rwa [h] at this

theorem stable_of {xs : List α} {v : Verdict β} (h : d.verdict xs = v) (hv : v ≠ .wait)
    (ys : List α) : d.verdict (xs ++ ys) = v := by
  rw [d.stable xs ys (by rw [h]; exact hv), h]

/-- Induction along a scan: the stream shrinks by what each verdict takes. -/
theorem scan_induction (d : Decoder α β) {motive : List α → Prop}
    (wait : ∀ xs, d.verdict xs = .wait → motive xs)
    (skip : ∀ xs, d.verdict xs = .skip → motive (xs.drop 1) → motive xs)
    (emit : ∀ xs m n, d.verdict xs = .emit m n → motive (xs.drop n) → motive xs)
    (reject : ∀ xs n, d.verdict xs = .reject n → motive xs) (xs : List α) : motive xs := by
  induction hn : xs.length using Nat.strongRecOn generalizing xs with
  | ind k ih =>
    have smaller : ∀ {v : Verdict β}, d.verdict xs = v → v ≠ .wait → motive (xs.drop v.size) := by
      intro v hv hne
      have := advance_of hv hne
      exact ih _ (by rw [List.length_drop]; omega) _ rfl
    cases hv : d.verdict xs with
    | wait => exact wait xs hv
    | skip => exact skip xs hv (smaller hv (by simp))
    | emit m n => exact emit xs m n hv (smaller hv (by simp))
    | reject n => exact reject xs n hv

/-! ## Where the messages lie -/

theorem residue_length_le (xs : List α) : (scan d xs).residue.length ≤ xs.length := by
  induction xs using scan_induction d with
  | wait xs h => simp [scan_wait h]
  | skip xs h ih =>
    rw [scan_skip h, Result.residue_shift]
    rw [List.length_drop] at ih
    omega
  | emit xs m n h ih =>
    rw [scan_emit h, Result.residue_push, Result.residue_shift]
    rw [List.length_drop] at ih
    omega
  | reject xs n h =>
    rw [scan_reject h, List.length_drop]
    omega

/-- A verdict that takes something leaves a shorter residue. -/
theorem residue_length_drop_le {xs : List α} {v : Verdict β} (h : d.verdict xs = v)
    (hv : v ≠ .wait) : (scan d (xs.drop v.size)).residue.length + v.size ≤ xs.length := by
  have hle := residue_length_le (d := d) (xs.drop v.size)
  have hadv := advance_of h hv
  rw [List.length_drop] at hle
  omega

theorem frontier_skip {xs : List α} (h : d.verdict xs = .skip) :
    (scan d xs).frontier xs.length = 1 + (scan d (xs.drop 1)).frontier (xs.drop 1).length := by
  have hlen := residue_length_drop_le h (by simp)
  simp only [Verdict.size] at hlen
  rw [scan_skip h]
  simp only [Result.frontier, Result.shift, List.length_drop]
  cases (scan d (xs.drop 1)).rejected with
  | none => simp only [Option.map_none]; omega
  | some p => simp only [Option.map_some]

theorem frontier_emit {xs : List α} {m : β} {n : Nat} (h : d.verdict xs = .emit m n) :
    (scan d xs).frontier xs.length = n + (scan d (xs.drop n)).frontier (xs.drop n).length := by
  have hlen := residue_length_drop_le h (by simp)
  simp only [Verdict.size] at hlen
  rw [scan_emit h]
  simp only [Result.frontier, Result.shift, Result.push, List.length_drop]
  cases (scan d (xs.drop n)).rejected with
  | none => simp only [Option.map_none]; omega
  | some p => simp only [Option.map_some]

/-- A scan that was not rejected stopped because the decoder waits. -/
theorem residue_waits {xs : List α} (hr : (scan d xs).rejected = none) :
    d.verdict (scan d xs).residue = .wait := by
  induction xs using scan_induction d with
  | wait xs h => rw [scan_wait h]; exact h
  | skip xs h ih =>
    rw [scan_skip h] at hr ⊢
    exact ih ((Result.rejected_shift_eq_none _ _).mp hr)
  | emit xs m n h ih =>
    rw [scan_emit h] at hr ⊢
    exact ih ((Result.rejected_shift_eq_none _ _).mp hr)
  | reject xs n h => rw [scan_reject h] at hr; simp at hr

/-- The rejected candidate lies where the scan says, and the residue starts right after it. -/
theorem rejected_spec {xs : List α} {p n : Nat} (hr : (scan d xs).rejected = some (p, n)) :
    d.verdict (xs.drop p) = .reject n ∧ (scan d xs).residue = xs.drop (p + n) := by
  induction xs using scan_induction d generalizing p with
  | wait xs h => rw [scan_wait h] at hr; simp at hr
  | skip xs h ih =>
    rw [scan_skip h] at hr ⊢
    simp only [Result.shift, Option.map_eq_some_iff, Prod.mk.injEq, Prod.exists] at hr
    obtain ⟨p', n', hr', rfl, rfl⟩ := hr
    obtain ⟨hv, hres⟩ := ih hr'
    rw [List.drop_drop] at hv hres
    exact ⟨hv, by rw [Result.residue_shift, hres, Nat.add_assoc]⟩
  | emit xs m k h ih =>
    rw [scan_emit h] at hr ⊢
    simp only [Result.shift, Result.push, Option.map_eq_some_iff, Prod.mk.injEq,
      Prod.exists] at hr
    obtain ⟨p', n', hr', rfl, rfl⟩ := hr
    obtain ⟨hv, hres⟩ := ih hr'
    rw [List.drop_drop] at hv hres
    exact ⟨hv, by rw [Result.residue_push, Result.residue_shift, hres, Nat.add_assoc]⟩
  | reject xs k h =>
    rw [scan_reject h] at hr ⊢
    simp only [Option.some.injEq, Prod.mk.injEq] at hr
    obtain ⟨rfl, rfl⟩ := hr
    exact ⟨by rwa [List.drop_zero], by rw [Nat.zero_add]⟩

theorem frontier_le (xs : List α) : (scan d xs).frontier xs.length ≤ xs.length := by
  cases hr : (scan d xs).rejected with
  | none =>
    simp only [Result.frontier, hr]
    omega
  | some p =>
    simp only [Result.frontier, hr]
    have hadv := advance_of (rejected_spec (p := p.1) (n := p.2) hr).1 (by simp)
    simp only [Verdict.size, List.length_drop] at hadv
    omega

/-- Each message was read from its slice, and the slice ends before the scan stopped. -/
theorem hits_slice {xs : List α} {h : Hit β} (hh : h ∈ (scan d xs).hits) :
    d.verdict (xs.drop h.start) = .emit h.msg h.len ∧
      h.stop ≤ (scan d xs).frontier xs.length := by
  induction xs using scan_induction d generalizing h with
  | wait xs hv => rw [scan_wait hv] at hh; simp at hh
  | skip xs hv ih =>
    rw [frontier_skip hv]
    rw [scan_skip hv] at hh
    simp only [Result.shift, List.mem_map] at hh
    obtain ⟨h', hh', rfl⟩ := hh
    obtain ⟨h1, h2⟩ := ih hh'
    rw [List.drop_drop] at h1
    exact ⟨h1, by simp only [Hit.stop, Hit.shift] at h2 ⊢; omega⟩
  | emit xs m n hv ih =>
    rw [frontier_emit hv]
    rw [scan_emit hv] at hh
    simp only [Result.push, Result.shift, List.mem_cons, List.mem_map] at hh
    rcases hh with rfl | ⟨h', hh', rfl⟩
    · exact ⟨by simpa using hv, by simp [Hit.stop]⟩
    · obtain ⟨h1, h2⟩ := ih hh'
      rw [List.drop_drop] at h1
      exact ⟨h1, by simp only [Hit.stop, Hit.shift] at h2 ⊢; omega⟩
  | reject xs n hv => rw [scan_reject hv] at hh; simp at hh

/-- The slices are disjoint and in order. -/
theorem hits_sorted (xs : List α) :
    (scan d xs).hits.Pairwise fun a b => a.stop ≤ b.start := by
  have shifted : ∀ (k : Nat) (hs : List (Hit β)), hs.Pairwise (fun a b => a.stop ≤ b.start) →
      (hs.map (Hit.shift k)).Pairwise fun a b => a.stop ≤ b.start := by
    intro k hs h
    refine List.pairwise_map.mpr (h.imp ?_)
    intro a b hab
    simp only [Hit.stop, Hit.shift] at hab ⊢
    omega
  induction xs using scan_induction d with
  | wait xs h => rw [scan_wait h]; exact List.Pairwise.nil
  | skip xs h ih => rw [scan_skip h]; exact shifted 1 _ ih
  | emit xs m n h ih =>
    rw [scan_emit h]
    refine List.pairwise_cons.mpr ⟨?_, shifted n _ ih⟩
    intro b hb
    obtain ⟨b', _, rfl⟩ := List.mem_map.mp hb
    simp [Hit.stop, Hit.shift]
  | reject xs n h => rw [scan_reject h]; exact List.Pairwise.nil

/-- Below the frontier the scan passed over every position: inside a message or by a skip. -/
theorem scan_complete {xs : List α} {p : Nat} (hp : p < (scan d xs).frontier xs.length) :
    (∃ h ∈ (scan d xs).hits, h.start ≤ p ∧ p < h.stop) ∨ d.verdict (xs.drop p) = .skip := by
  induction xs using scan_induction d generalizing p with
  | wait xs h => rw [scan_wait h] at hp; simp [Result.frontier] at hp
  | skip xs h ih =>
    rw [frontier_skip h] at hp
    rcases Nat.eq_zero_or_pos p with rfl | h0
    · exact Or.inr (by rwa [List.drop_zero])
    · rcases ih (p := p - 1) (by omega) with ⟨a, ha, h1, h2⟩ | hv
      · refine Or.inl ⟨a.shift 1, ?_, ?_, ?_⟩
        · rw [scan_skip h]; exact List.mem_map_of_mem ha
        · simp only [Hit.shift]; omega
        · simp only [Hit.stop, Hit.shift] at h2 ⊢; omega
      · rw [List.drop_drop, show 1 + (p - 1) = p by omega] at hv
        exact Or.inr hv
  | emit xs m n h ih =>
    rw [frontier_emit h] at hp
    rcases Nat.lt_or_ge p n with hpn | hpn
    · exact Or.inl ⟨⟨0, n, m⟩, by rw [scan_emit h]; exact List.mem_cons_self,
        Nat.zero_le _, by simpa [Hit.stop] using hpn⟩
    · rcases ih (p := p - n) (by omega) with ⟨a, ha, h1, h2⟩ | hv
      · refine Or.inl ⟨a.shift n, ?_, ?_, ?_⟩
        · rw [scan_emit h]; exact List.mem_cons_of_mem _ (List.mem_map_of_mem ha)
        · simp only [Hit.shift]; omega
        · simp only [Hit.stop, Hit.shift] at h2 ⊢; omega
      · rw [List.drop_drop, show n + (p - n) = p by omega] at hv
        exact Or.inr hv
  | reject xs n h => rw [scan_reject h] at hp; simp [Result.frontier] at hp

/-! ## Scanning on -/

/-- A scan that was not rejected goes on from what it left. -/
theorem scan_append {xs : List α} (ys : List α) (hr : (scan d xs).rejected = none) :
    scan d (xs ++ ys) = ((scan d ((scan d xs).residue ++ ys)).shift
      (xs.length - (scan d xs).residue.length)).prepend (scan d xs).hits := by
  induction xs using scan_induction d with
  | wait xs h => rw [scan_wait h]; simp [Result.prepend]
  | skip xs h ih =>
    have hlen := residue_length_drop_le h (by simp)
    have hadv := advance_of h (by simp)
    simp only [Verdict.size] at hlen hadv
    rw [scan_skip h] at hr ⊢
    rw [scan_skip (stable_of h (by simp) ys), List.drop_append_of_le_length hadv.2,
      ih ((Result.rejected_shift_eq_none _ _).mp hr), Result.shift_prepend, Result.shift_shift,
      Result.residue_shift, List.length_drop]
    congr 2
    omega
  | emit xs m n h ih =>
    have hlen := residue_length_drop_le h (by simp)
    have hadv := advance_of h (by simp)
    simp only [Verdict.size] at hlen hadv
    rw [scan_emit h] at hr ⊢
    rw [scan_emit (stable_of h (by simp) ys), List.drop_append_of_le_length hadv.2,
      ih ((Result.rejected_shift_eq_none _ _).mp hr), Result.shift_prepend, Result.shift_shift,
      Result.push_prepend, Result.residue_push, Result.residue_shift, List.length_drop]
    congr 2
    omega
  | reject xs n h => rw [scan_reject h] at hr; simp at hr

/-- A rejected scan does not look at what follows. -/
theorem scan_append_rejected {xs : List α} (ys : List α) (hr : (scan d xs).rejected ≠ none) :
    scan d (xs ++ ys) = { scan d xs with residue := (scan d xs).residue ++ ys } := by
  induction xs using scan_induction d with
  | wait xs h => rw [scan_wait h] at hr; simp at hr
  | skip xs h ih =>
    have hadv := advance_of h (by simp)
    simp only [Verdict.size] at hadv
    rw [scan_skip h] at hr ⊢
    rw [scan_skip (stable_of h (by simp) ys), List.drop_append_of_le_length hadv.2,
      ih (mt (Result.rejected_shift_eq_none _ _).mpr hr)]
    rfl
  | emit xs m n h ih =>
    have hadv := advance_of h (by simp)
    simp only [Verdict.size] at hadv
    rw [scan_emit h] at hr ⊢
    rw [scan_emit (stable_of h (by simp) ys), List.drop_append_of_le_length hadv.2,
      ih (mt (Result.rejected_shift_eq_none _ _).mpr hr)]
    rfl
  | reject xs n h =>
    have hadv := advance_of h (by simp)
    simp only [Verdict.size] at hadv
    rw [scan_reject h, scan_reject (stable_of h (by simp) ys),
      List.drop_append_of_le_length hadv.2]

/-! ## Feeding the stream in chunks -/

/-- The outcome of scanning after each chunk, stopping at the first rejected scan: the
    messages, what is left, and whether a scan was rejected. -/
def feed (d : Decoder α β) (residue : List α) : List (List α) → List β × List α × Bool
  | [] => ([], residue, false)
  | c :: cs =>
    let s := scan d (residue ++ c)
    if s.rejected.isSome then (s.messages, s.residue, true)
    else ((s.messages ++ (feed d s.residue cs).1), (feed d s.residue cs).2)

/-- Feeding chunks gives the messages of one scan of their concatenation and is rejected
    exactly when that scan is; otherwise it also leaves the same. -/
theorem feed_spec (r : List α) (hw : d.verdict r = .wait) (cs : List (List α)) :
    (feed d r cs).1 = (scan d (r ++ cs.flatten)).messages ∧
      (feed d r cs).2.2 = (scan d (r ++ cs.flatten)).rejected.isSome ∧
      ((feed d r cs).2.2 = false → (feed d r cs).2.1 = (scan d (r ++ cs.flatten)).residue) := by
  induction cs generalizing r with
  | nil =>
    rw [List.flatten_nil, List.append_nil, scan_wait hw]
    simp [feed, Result.messages]
  | cons c cs ih =>
    rw [List.flatten_cons, ← List.append_assoc]
    cases hr : (scan d (r ++ c)).rejected with
    | some p =>
      rw [scan_append_rejected _ (by rw [hr]; simp)]
      simp [feed, hr, Result.messages]
    | none =>
      obtain ⟨h1, h2, h3⟩ := ih (scan d (r ++ c)).residue (residue_waits hr)
      rw [scan_append _ hr]
      simp only [feed, hr, Option.isSome_none, Bool.false_eq_true, if_false]
      refine ⟨?_, ?_, ?_⟩
      · rw [Result.messages_prepend, Result.messages_shift, h1]
        rfl
      · rw [h2]
        simp [Result.prepend, Result.shift]
      · intro hf
        rw [h3 hf]
        rfl

/-- The messages of the chunks in front of the first one whose scan is rejected. -/
def feedClean (d : Decoder α β) (residue : List α) : List (List α) → List β
  | [] => []
  | c :: cs =>
    if (scan d (residue ++ c)).rejected.isSome then []
    else (scan d (residue ++ c)).messages ++ feedClean d (scan d (residue ++ c)).residue cs

theorem scan_no_chunks {r : List α} (hw : d.verdict r = .wait) :
    (scan d (r ++ ([] : List (List α)).flatten)).rejected = none ∧
      (scan d (r ++ ([] : List (List α)).flatten)).messages = [] := by
  rw [List.flatten_nil, List.append_nil, scan_wait hw]
  exact ⟨rfl, rfl⟩

/-- The messages of a chunk whose scan is rejected are lost, so feeding the chunks gives the
    messages of one scan of their concatenation exactly when some of the first chunks give
    them without a rejection. -/
theorem feedClean_eq_iff {r : List α} (hw : d.verdict r = .wait) (cs : List (List α)) :
    feedClean d r cs = (scan d (r ++ cs.flatten)).messages ↔
      ∃ k, (scan d (r ++ (cs.take k).flatten)).rejected = none ∧
        (scan d (r ++ (cs.take k).flatten)).messages = (scan d (r ++ cs.flatten)).messages := by
  induction cs generalizing r with
  | nil =>
    obtain ⟨hnone, hmessages⟩ := scan_no_chunks hw
    refine iff_of_true ?_ ⟨0, hnone, rfl⟩
    rw [hmessages]
    rfl
  | cons c cs ih =>
    obtain ⟨hnone, hempty⟩ := scan_no_chunks hw
    rw [List.flatten_cons, ← List.append_assoc]
    cases hr : (scan d (r ++ c)).rejected with
    | some p =>
      have hlost : feedClean d r (c :: cs) = [] := by simp [feedClean, hr]
      rw [hlost]
      constructor
      · intro h
        exact ⟨0, hnone, by rw [← h]; exact hempty⟩
      · rintro ⟨k, hk, hmessages⟩
        cases k with
        | zero => rw [← hmessages]; exact hempty.symm
        | succ k =>
          -- once rejected, a scan stays rejected
          rw [List.take_succ_cons, List.flatten_cons, ← List.append_assoc,
            scan_append_rejected _ (by rw [hr]; simp)] at hk
          exact absurd (hr.symm.trans hk) (by simp)
    | none =>
      have hwait := residue_waits hr
      have hstep : ∀ ys, (scan d (r ++ c ++ ys)).messages =
            (scan d (r ++ c)).messages ++ (scan d ((scan d (r ++ c)).residue ++ ys)).messages ∧
          ((scan d (r ++ c ++ ys)).rejected = none ↔
            (scan d ((scan d (r ++ c)).residue ++ ys)).rejected = none) := by
        intro ys
        rw [scan_append ys hr]
        refine ⟨?_, ?_⟩
        · rw [Result.messages_prepend, Result.messages_shift]
          rfl
        · exact Result.rejected_shift_eq_none _ _
      have hfeed : feedClean d r (c :: cs) =
          (scan d (r ++ c)).messages ++ feedClean d (scan d (r ++ c)).residue cs := by
        simp [feedClean, hr]
      rw [hfeed, (hstep cs.flatten).1, List.append_right_inj, ih hwait]
      constructor
      · rintro ⟨k, hk, hmessages⟩
        refine ⟨k + 1, ?_⟩
        rw [List.take_succ_cons, List.flatten_cons, ← List.append_assoc, (hstep _).1,
          (hstep _).2, hmessages]
        exact ⟨hk, rfl⟩
      · rintro ⟨k, hk, hmessages⟩
        cases k with
        | zero =>
          rw [List.take_zero, hempty] at hmessages
          obtain ⟨-, hrest⟩ := List.append_eq_nil_iff.mp hmessages.symm
          obtain ⟨hnone', hempty'⟩ := scan_no_chunks hwait
          exact ⟨0, hnone', by rw [hrest]; exact hempty'⟩
        | succ k =>
          rw [List.take_succ_cons, List.flatten_cons, ← List.append_assoc, (hstep _).1,
            List.append_right_inj] at hmessages
          rw [List.take_succ_cons, List.flatten_cons, ← List.append_assoc, (hstep _).2] at hk
          exact ⟨k, hk, hmessages⟩

end StreamScan
