import Mathlib.Data.List.Basic

/-!
# Readers with a cursor

A reader takes a value off the front of a list and answers it with what is left.
`Cursor.Takes` is its half of a round trip, composed by `Takes.many` for lists of values.

A `Cursor.Lenient` reader of fields never fails: where a field is not complete it reports
nothing and leaves what `Gap` says. Such a reader, asked only whether anything is left at the
end, accepts exactly the complete encodings of those inputs that have no gap
(`Lenient.exact_iff_no_gap`).
-/

namespace Cursor

variable {α β φ : Type}

/-- The reader takes just these symbols, whatever follows, and answers `a`. -/
def Takes (read : List β → α × List β) (code : List β) (a : α) : Prop :=
  ∀ rest, read (code ++ rest) = (a, rest)

theorem Takes.all {read : List β → α × List β} {code : List β} {a : α} (h : Takes read code a) :
    read code = (a, []) := by
  have last := h []
  rwa [List.append_nil] at last

/-- A loop that reads `count` values. -/
def readMany (read : List β → α × List β) : (count : Nat) → List β → List α × List β
  | 0, bytes => ([], bytes)
  | count + 1, bytes =>
    let (value, rest) := read bytes
    let (values, rest) := readMany read count rest
    (value :: values, rest)

theorem length_readMany (read : List β → α × List β) (count : Nat) (bytes : List β) :
    (readMany read count bytes).1.length = count := by
  induction count generalizing bytes with
  | zero => rfl
  | succ count ih => simp only [readMany, List.length_cons, ih]

theorem Takes.many {read : List β → α × List β} {write : α → List β} {values : List α}
    (each : ∀ a ∈ values, Takes read (write a) a) :
    Takes (readMany read values.length) (values.flatMap write) values := by
  induction values with
  | nil => exact fun rest => rfl
  | cons a values ih =>
    intro rest
    have first := each a List.mem_cons_self
    have others := ih fun b hb => each b (List.mem_cons_of_mem a hb)
    simp only [List.length_cons, List.flatMap_cons, List.append_assoc, readMany, first _, others _]

/-- A reader of fields that takes a complete field and passes over a gap without a word. -/
structure Lenient (φ β : Type) where
  /-- The complete encodings of a field. -/
  Whole : φ → List β → Prop
  /-- No complete encoding starts here, and the reader goes on with the second list. -/
  Gap : φ → List β → List β → Prop
  after : φ → List β → List β
  after_whole {f : φ} {code : List β} (rest : List β) : Whole f code → after f (code ++ rest) = rest
  after_gap {f : φ} {bytes rest : List β} : Gap f bytes rest → after f bytes = rest
  cases (f : φ) (bytes : List β) :
    (∃ code rest, Whole f code ∧ bytes = code ++ rest) ∨ ∃ rest, Gap f bytes rest
  apart {f : φ} {code rest rest' : List β} : Whole f code → ¬ Gap f (code ++ rest) rest'

namespace Lenient

variable (r : Lenient φ β)

/-- One complete encoding for each field, and nothing else. -/
def Exact (fields : List φ) (bytes : List β) : Prop :=
  ∃ codes, List.Forall₂ r.Whole fields codes ∧ bytes = codes.flatten

/-- The fields take up all the bytes; `gaps` of them are gaps. -/
inductive Fills : List φ → List β → Nat → Prop
  | nil : Fills [] [] 0
  | whole {f : φ} {fields : List φ} {code rest : List β} {gaps : Nat} :
      r.Whole f code → Fills fields rest gaps → Fills (f :: fields) (code ++ rest) gaps
  | gap {f : φ} {fields : List φ} {bytes rest : List β} {gaps : Nat} :
      r.Gap f bytes rest → Fills fields rest gaps → Fills (f :: fields) bytes (gaps + 1)

/-- What is left when all the fields have been read. -/
def left (fields : List φ) (bytes : List β) : List β :=
  fields.foldl (fun bytes f => r.after f bytes) bytes

variable {r}

@[simp] theorem left_nil (bytes : List β) : r.left [] bytes = bytes := rfl

@[simp] theorem left_cons (f : φ) (fields : List φ) (bytes : List β) :
    r.left (f :: fields) bytes = r.left fields (r.after f bytes) := rfl

theorem left_append (fields others : List φ) (bytes : List β) :
    r.left (fields ++ others) bytes = r.left others (r.left fields bytes) :=
  List.foldl_append

/-- A loop of readers leaves what the readers of its fields leave. -/
theorem left_readMany {read : List β → α × List β} {fields : List φ}
    (same : ∀ bytes, (read bytes).2 = r.left fields bytes) (count : Nat) (bytes : List β) :
    (readMany read count bytes).2 = r.left (List.replicate count fields).flatten bytes := by
  induction count generalizing bytes with
  | zero => rfl
  | succ count ih =>
    rw [List.replicate_succ, List.flatten_cons, left_append, ← same, ← ih]
    rfl

theorem fills_zero {fields : List φ} {bytes : List β} :
    r.Fills fields bytes 0 ↔ r.Exact fields bytes := by
  constructor
  · intro h
    generalize none : 0 = gaps at h
    induction h with
    | nil => exact ⟨[], .nil, rfl⟩
    | @whole f fields code rest gaps whole _ ih =>
      obtain ⟨codes, match', rfl⟩ := ih none
      exact ⟨code :: codes, .cons whole match', rfl⟩
    | gap => cases none
  · rintro ⟨codes, matched, rfl⟩
    induction matched with
    | nil => exact .nil
    | cons whole _ ih => exact .whole whole ih

/-- Nothing is left exactly when complete fields and gaps take up all the bytes. -/
theorem left_eq_nil_iff {fields : List φ} {bytes : List β} :
    r.left fields bytes = [] ↔ ∃ gaps, r.Fills fields bytes gaps := by
  constructor
  · intro h
    induction fields generalizing bytes with
    | nil => cases h; exact ⟨0, .nil⟩
    | cons f fields ih =>
      rcases r.cases f bytes with ⟨code, rest, whole, rfl⟩ | ⟨rest, gap⟩
      · rw [left_cons, r.after_whole rest whole] at h
        obtain ⟨gaps, fills⟩ := ih h
        exact ⟨gaps, .whole whole fills⟩
      · rw [left_cons, r.after_gap gap] at h
        obtain ⟨gaps, fills⟩ := ih h
        exact ⟨gaps + 1, .gap gap fills⟩
  · rintro ⟨gaps, fills⟩
    induction fills with
    | nil => rfl
    | whole whole _ ih => rw [left_cons, r.after_whole _ whole, ih]
    | gap gap _ ih => rw [left_cons, r.after_gap gap, ih]

/-- The bytes decide where the gaps are. -/
theorem Fills.unique {fields : List φ} {bytes : List β} {m n : Nat} (h : r.Fills fields bytes m)
    (h' : r.Fills fields bytes n) : m = n := by
  induction h generalizing n with
  | nil => cases h'; rfl
  | @whole f fields code rest gaps whole _ ih =>
    generalize same : code ++ rest = bytes at h'
    cases h' with
    | @whole _ _ code' rest' _ whole' fills' =>
      have rests : rest = rest' := by
        rw [← r.after_whole rest whole, same, r.after_whole rest' whole']
      exact ih (rests ▸ fills')
    | gap gap _ => exact absurd (same ▸ gap) (r.apart whole)
  | @gap f fields bytes rest gaps gap _ ih =>
    cases h' with
    | whole whole _ => exact absurd gap (r.apart whole)
    | gap gap' fills' =>
      have rests := (r.after_gap gap).symm.trans (r.after_gap gap')
      rw [ih (rests ▸ fills')]

/-- Acceptance means a complete encoding just where no gap is passed over. -/
theorem exact_iff_no_gap {fields : List φ} {bytes : List β} :
    (r.left fields bytes = [] ↔ r.Exact fields bytes) ↔
      ¬ ∃ gaps, r.Fills fields bytes (gaps + 1) := by
  rw [left_eq_nil_iff, ← fills_zero]
  constructor
  · rintro h ⟨gaps, fills⟩
    exact absurd (fills.unique (h.mp ⟨_, fills⟩)) (Nat.succ_ne_zero gaps)
  · intro none
    refine ⟨?_, fun fills => ⟨0, fills⟩⟩
    rintro ⟨gaps, fills⟩
    cases gaps with
    | zero => exact fills
    | succ gaps => exact absurd ⟨gaps, fills⟩ none

end Lenient

end Cursor
