import Mathlib

/-!
# A table with a primary key

Rows are kept in insertion order and no two of them share their key.  Inserts
respect that, updates keep the key, and everything a query can see of the table
is determined by `find`.
-/

namespace SecurePastebin

structure Table {Row Key : Type} (key : Row → Key) where
  rows : List Row
  nodup : (rows.map key).Nodup

variable {Row Key : Type} {key : Row → Key}

namespace Table

def empty : Table key := ⟨[], List.nodup_nil⟩

variable {f : Row → Row} {condition : Row → Bool} {before : Row → Row → Bool}

/-- A function on rows that keeps the key maps the key list to itself. -/
private theorem map_key_map {rows : List Row}
    (hkey : ∀ row, key (f row) = key row) : (rows.map f).map key = rows.map key := by
  rw [List.map_map]
  exact List.map_congr_left fun row _ => hkey row

/-- `UPDATE … WHERE condition`. -/
def update (table : Table key) (condition : Row → Bool) (f : Row → Row)
    (hkey : ∀ row, key (f row) = key row) : Table key where
  rows := table.rows.map fun row => if condition row then f row else row
  nodup := by
    rw [map_key_map]
    · exact table.nodup
    · intro row
      split
      · exact hkey row
      · rfl

theorem update_eq_self {table : Table key} {hkey : ∀ row, key (f row) = key row}
    (hsame : ∀ row ∈ table.rows, condition row = true → f row = row) :
    table.update condition f hkey = table := by
  obtain ⟨rows, hnodup⟩ := table
  have hrows : (rows.map fun row => if condition row then f row else row) = rows := by
    refine (List.map_congr_left fun row hrow => ?_).trans (List.map_id rows)
    split
    · rename_i hcondition
      exact hsame row hrow hcondition
    · rfl
  simp only [update, hrows]

/-- `DELETE … WHERE condition`. -/
def delete (table : Table key) (condition : Row → Bool) : Table key where
  rows := table.rows.filter fun row => !condition row
  nodup := table.nodup.sublist (List.filter_sublist.map key)

/-- Number of rows `condition` selects. -/
def count (table : Table key) (condition : Row → Bool) : ℕ :=
  table.rows.countP condition

/-- `SELECT … WHERE condition ORDER BY before LIMIT limit OFFSET offset`. -/
def select (table : Table key) (condition : Row → Bool) (before : Row → Row → Bool)
    (limit offset : ℕ) : List Row :=
  (((table.rows.filter condition).insertionSort fun left right => before left right).drop
    offset).take limit

/-- A query returns no key twice. -/
theorem nodup_select (table : Table key) (condition : Row → Bool) (before : Row → Row → Bool)
    (limit offset : ℕ) : ((table.select condition before limit offset).map key).Nodup := by
  have hfiltered : ((table.rows.filter condition).map key).Nodup :=
    table.nodup.sublist (List.filter_sublist.map key)
  have hsorted : (((table.rows.filter condition).insertionSort fun left right =>
      before left right).map key).Nodup :=
    ((List.perm_insertionSort _ _).map key).nodup_iff.mpr hfiltered
  exact hsorted.sublist (((List.take_sublist _ _).trans (List.drop_sublist _ _)).map key)

/-- All rows `condition` selects, in order. -/
def ordered (table : Table key) (condition : Row → Bool) (before : Row → Row → Bool) : List Row :=
  (table.rows.filter condition).insertionSort fun left right => before left right

theorem select_eq_take (table : Table key) (condition : Row → Bool) (before : Row → Row → Bool)
    (limit : ℕ) :
    table.select condition before limit 0 = (table.ordered condition before).take limit := rfl

theorem mem_ordered {table : Table key} {row : Row} :
    row ∈ table.ordered condition before ↔ row ∈ table.rows ∧ condition row = true := by
  rw [ordered, List.mem_insertionSort, List.mem_filter]

theorem nodup_ordered (table : Table key) (condition : Row → Bool) (before : Row → Row → Bool) :
    ((table.ordered condition before).map key).Nodup :=
  ((List.perm_insertionSort _ _).map key).nodup_iff.mpr
    (table.nodup.sublist (List.filter_sublist.map key))

theorem perm_ordered (table : Table key) (condition : Row → Bool) (before : Row → Row → Bool) :
    (table.ordered condition before).Perm (table.rows.filter condition) :=
  List.perm_insertionSort _ _

theorem pairwise_ordered
    (htotal : ∀ left right, before left right = true ∨ before right left = true)
    (htrans : ∀ left mid right, before left mid = true → before mid right = true →
      before left right = true) (table : Table key) (condition : Row → Bool) :
    (table.ordered condition before).Pairwise fun left right => before left right = true := by
  have : Std.Total fun left right => before left right = true := ⟨htotal⟩
  have : IsTrans Row fun left right => before left right = true := ⟨htrans⟩
  exact List.pairwise_insertionSort (fun left right => before left right = true) _

/-- Where some of the selected rows are left, they are in the same order. -/
theorem ordered_of_filter {table table' : Table key} {condition condition' keep : Row → Bool}
    (htotal : ∀ left right, before left right = true ∨ before right left = true)
    (htrans : ∀ left mid right, before left mid = true → before mid right = true →
      before left right = true)
    (hantisymm : ∀ left right, before left right = true → before right left = true →
      key left = key right)
    (hrows : table'.rows.filter condition' = (table.rows.filter condition).filter keep) :
    table'.ordered condition' before = (table.ordered condition before).filter keep := by
  refine List.Perm.eq_of_pairwise ?_ (pairwise_ordered htotal htrans table' condition')
    ((pairwise_ordered htotal htrans table condition).filter keep) ?_
  · intro left right hleft hright hle hge
    have hmem : ∀ {row}, row ∈ table'.ordered condition' before → row ∈ table'.rows :=
      fun hrow => (mem_ordered.mp hrow).1
    have hright' : right ∈ table'.ordered condition' before := by
      rw [ordered, List.mem_insertionSort, hrows]
      obtain ⟨hordered, hkeep⟩ := List.mem_filter.mp hright
      exact List.mem_filter.mpr ⟨List.mem_filter.mpr (mem_ordered.mp hordered), hkeep⟩
    exact List.inj_on_of_nodup_map table'.nodup (hmem hleft) (hmem hright')
      (hantisymm left right hle hge)
  · have hperm := (table.perm_ordered condition before).filter keep
    rw [← hrows] at hperm
    exact (table'.perm_ordered condition' before).trans hperm.symm

variable [DecidableEq Key]

def find (table : Table key) (id : Key) : Option Row :=
  table.rows.find? fun row => key row = id

/-- `INSERT`: refused when the key is taken. -/
def insert (table : Table key) (row : Row) : Option (Table key) :=
  if hfresh : key row ∈ table.rows.map key then none
  else some ⟨table.rows ++ [row], by
    rw [List.map_append, List.nodup_append]
    refine ⟨table.nodup, List.nodup_singleton _, ?_⟩
    intro found hfound other hother heq
    rw [List.map_singleton, List.mem_singleton] at hother
    exact hfresh (hother ▸ heq ▸ hfound)⟩

variable {table : Table key} {row : Row} {id : Key}

theorem key_of_find (hfind : table.find id = some row) : key row = id := by
  simpa using List.find?_some hfind

theorem mem_of_find (hfind : table.find id = some row) : row ∈ table.rows :=
  List.mem_of_find?_eq_some hfind

theorem find?_of_mem {rows : List Row} (hnodup : (rows.map key).Nodup)
    (hmem : row ∈ rows) : (rows.find? fun other => key other = key row) = some row := by
  induction rows with
  | nil => cases hmem
  | cons first rows ih =>
      rw [List.map_cons, List.nodup_cons] at hnodup
      rcases List.mem_cons.mp hmem with rfl | hrest
      · simp
      · have hne : key first ≠ key row := fun heq =>
          hnodup.1 (heq ▸ List.mem_map_of_mem hrest)
        simpa [hne] using ih hnodup.2 hrest

theorem find_of_mem (hmem : row ∈ table.rows) : table.find (key row) = some row :=
  find?_of_mem table.nodup hmem

@[simp]
theorem find_empty (id : Key) : (empty : Table key).find id = none := rfl

theorem find_update (condition : Row → Bool) (f : Row → Row)
    (hkey : ∀ row, key (f row) = key row) (id : Key) :
    (table.update condition f hkey).find id =
      (table.find id).map fun row => if condition row then f row else row := by
  have hcomp : ∀ row, key (if condition row then f row else row) = key row := by
    intro row
    split
    · exact hkey row
    · rfl
  simp only [find, update, List.find?_map, Function.comp_def, hcomp]

theorem find_delete (condition : Row → Bool) (id : Key) :
    (table.delete condition).find id = (table.find id).filter fun row => !condition row := by
  apply Option.ext
  intro row
  rw [Option.filter_eq_some_iff]
  constructor
  · intro hfind
    have hmem := List.mem_filter.mp (mem_of_find hfind)
    have hkey := key_of_find hfind
    exact ⟨hkey ▸ find_of_mem hmem.1, hmem.2⟩
  · rintro ⟨hfind, hcondition⟩
    have hmem : row ∈ (table.delete condition).rows :=
      List.mem_filter.mpr ⟨mem_of_find hfind, hcondition⟩
    exact key_of_find hfind ▸ find_of_mem hmem

/-- An insert succeeds on a fresh key only, and adds its row under that key. -/
theorem insert_eq_some {next : Table key} (hinsert : table.insert row = some next) :
    table.find (key row) = none ∧
      ∀ id, next.find id = if id = key row then some row else table.find id := by
  unfold insert at hinsert
  split at hinsert
  · cases hinsert
  · rename_i hfresh
    have hnone : table.find (key row) = none := by
      rw [find, List.find?_eq_none]
      intro other hother
      simp only [decide_eq_true_eq]
      intro heq
      exact hfresh (heq ▸ List.mem_map_of_mem hother)
    refine ⟨hnone, ?_⟩
    cases hinsert
    intro id
    by_cases heq : id = key row
    · have hrows : (table.rows.find? fun other => decide (key other = key row)) = none := hnone
      rw [if_pos heq, heq]
      simp only [find, List.find?_append, hrows, List.find?_singleton, decide_true, if_true,
        Option.none_or]
    · have hdecide : decide (key row = id) = false := decide_eq_false (Ne.symm heq)
      rw [if_neg heq]
      simp only [find, List.find?_append, List.find?_singleton, hdecide, Bool.false_eq_true,
        if_false, Option.or_none]

/-- A query only returns rows that are in the table and meet its condition. -/
theorem of_mem_select {limit offset : ℕ} (hmem : row ∈ table.select condition before limit offset) :
    table.find (key row) = some row ∧ condition row = true := by
  have hsorted := List.mem_of_mem_drop (List.mem_of_mem_take hmem)
  rw [List.mem_insertionSort] at hsorted
  obtain ⟨hrow, hcondition⟩ := List.mem_filter.mp hsorted
  exact ⟨find_of_mem hrow, hcondition⟩

/-- A query that returns fewer rows than its limit has returned them all. -/
theorem mem_select_of_length_lt {limit : ℕ}
    (hlength : (table.select condition before limit 0).length < limit)
    (hfind : table.find id = some row) (hcondition : condition row = true) :
    row ∈ table.select condition before limit 0 := by
  simp only [select, List.drop_zero, List.length_take] at hlength ⊢
  rw [List.take_of_length_le (by omega), List.mem_insertionSort]
  exact List.mem_filter.mpr ⟨mem_of_find hfind, hcondition⟩

/-! ## Tables that look the same -/

section

variable {view : Row → Row} {left right : Table key}

/-- The rows are the same through `view`, in their order. -/
def SameView (view : Row → Row) (left right : Table key) : Prop :=
  left.rows.map view = right.rows.map view

theorem SameView.find (hsame : SameView view left right) (hkey : ∀ row, key (view row) = key row)
    (id : Key) : (left.find id).map view = (right.find id).map view := by
  have hfind : ∀ rows : List Row, (rows.find? fun row => key row = id).map view =
      (rows.map view).find? fun row => key row = id := by
    intro rows
    rw [List.find?_map]
    simp only [Function.comp_def, hkey]
  simp only [Table.find, hfind]
  rw [show left.rows.map view = right.rows.map view from hsame]

omit [DecidableEq Key] in
theorem SameView.count (hsame : SameView view left right)
    (hcondition : ∀ row, condition (view row) = condition row) :
    left.count condition = right.count condition := by
  have hcount : ∀ rows : List Row, rows.countP condition = (rows.map view).countP condition := by
    intro rows
    rw [List.countP_map]
    simp only [Function.comp_def, hcondition]
  calc
    left.count condition = (left.rows.map view).countP condition := hcount left.rows
    _ = (right.rows.map view).countP condition := congrArg _ hsame
    _ = right.count condition := (hcount right.rows).symm

omit [DecidableEq Key] in
theorem SameView.update (hsame : SameView view left right) (hkey : ∀ row, key (f row) = key row)
    (hcondition : ∀ row, condition (view row) = condition row)
    (hf : ∀ row, view (f row) = f (view row)) :
    SameView view (left.update condition f hkey) (right.update condition f hkey) := by
  have hcomm : ∀ rows : List Row,
      (rows.map fun row => if condition row then f row else row).map view =
        (rows.map view).map fun row => if condition row then f row else row := by
    intro rows
    simp only [List.map_map]
    apply List.map_congr_left
    intro row _
    simp only [Function.comp_apply, hcondition]
    split
    · exact hf row
    · rfl
  simp only [SameView, Table.update, hcomm]
  rw [show left.rows.map view = right.rows.map view from hsame]

/-- Rows that look the same are refused or accepted alike. -/
theorem SameView.insert (hsame : SameView view left right)
    (hkey : ∀ row, key (view row) = key row) {row row' : Row} (hrow : view row = view row') :
    (left.insert row = none ∧ right.insert row' = none) ∨
      ∃ left' right', left.insert row = some left' ∧ right.insert row' = some right' ∧
        SameView view left' right' := by
  have hkeys : left.rows.map key = right.rows.map key := by
    have hmap : ∀ rows : List Row, rows.map key = (rows.map view).map key := by
      intro rows
      rw [List.map_map]
      exact List.map_congr_left fun row _ => (hkey row).symm
    rw [hmap, hmap right.rows, show left.rows.map view = right.rows.map view from hsame]
  have hrow' : key row = key row' := by rw [← hkey row, hrow, hkey]
  by_cases hfresh : key row ∈ left.rows.map key
  · refine .inl ⟨dif_pos hfresh, dif_pos ?_⟩
    rwa [← hkeys, ← hrow']
  · have hfresh' : key row' ∉ right.rows.map key := by rwa [← hkeys, ← hrow']
    refine .inr ⟨_, _, dif_neg hfresh, dif_neg hfresh', ?_⟩
    simp only [SameView, List.map_append, List.map_singleton, hrow]
    rw [show left.rows.map view = right.rows.map view from hsame]

end

end Table

end SecurePastebin
