/-!
# Named fields

The fields of an object, as a list of names with their values.  The list is kept
in ascending order of names, which is the order in which an object's fields are
visited; names compare by code point.

## Main definitions

* `Fields` — the association list
* `Fields.get?`, `Fields.insert`, `Fields.ofList` — lookup, replacement and
  construction
* `Fields.Ascending` — the order that `insert` keeps

## Design notes

`Fields` is a plain `List (String × α)`, so that the recursive value types can
hold it as a child.  The order is therefore a predicate and not part of the
type: lookup is right for any list, and `insert` gives an ascending list from an
ascending one.
-/

namespace YarnPreview

/-- Names with values, in ascending order of names. -/
abbrev Fields (α : Type) : Type := List (String × α)

namespace Fields

variable {α : Type}

/-- The value under a name. -/
def get? : Fields α → String → Option α
  | [], _ => none
  | field :: rest, name => if name = field.1 then some field.2 else get? rest name

/-- **Insertion in order**: replaces the value of a name that is there, and puts
a new name before the first larger one. -/
def insert (name : String) (value : α) : Fields α → Fields α
  | [] => [(name, value)]
  | field :: rest =>
      if name < field.1 then (name, value) :: field :: rest
      else if name = field.1 then (name, value) :: rest
      else field :: insert name value rest

/-- The fields of a list of pairs; of two pairs with one name the later one
counts. -/
def ofList (pairs : List (String × α)) : Fields α :=
  pairs.foldl (fun fields pair => fields.insert pair.1 pair.2) []

/-- The names, in order. -/
def names (fields : Fields α) : List String :=
  fields.map Prod.fst

/-- The names ascend strictly; in particular none occurs twice. -/
def Ascending (fields : Fields α) : Prop :=
  fields.names.Pairwise (· < ·)

@[simp] theorem get?_nil (name : String) : get? ([] : Fields α) name = none := rfl

theorem get?_cons (field : String × α) (rest : Fields α) (name : String) :
    get? (field :: rest) name = if name = field.1 then some field.2 else get? rest name := rfl

@[simp] theorem insert_nil (name : String) (value : α) :
    insert name value [] = [(name, value)] := rfl

/-- **Lookup after insertion**: the new value under its own name, and the old
answer under every other. -/
theorem get?_insert (fields : Fields α) (name other : String) (value : α) :
    get? (insert name value fields) other =
      if other = name then some value else get? fields other := by
  induction fields with
  | nil => simp [get?_cons]
  | cons field rest ih =>
      unfold insert
      split
      · simp [get?_cons]
      · split
        · next h => subst h; simp only [get?_cons]; split <;> rfl
        · next h =>
            simp only [get?_cons, ih]
            split
            · next h' => subst h'; simp [Ne.symm h]
            · rfl

/-- Insertion adds its name and no other. -/
theorem mem_names_insert (fields : Fields α) (name other : String) (value : α) :
    other ∈ (insert name value fields).names ↔ other = name ∨ other ∈ fields.names := by
  induction fields with
  | nil => simp [names]
  | cons field rest ih =>
      unfold insert
      split
      · simp [names]
      · split
        · next h => subst h; simp [names]
        · have hcons : ∀ (f : String × α) (fs : Fields α),
              names (f :: fs) = f.1 :: names fs := fun _ _ => rfl
          rw [hcons, hcons, List.mem_cons, List.mem_cons, ih]
          exact or_left_comm

/-- **Insertion keeps the order.**  A name goes before the first larger one, and
the names that it passes are all smaller. -/
theorem ascending_insert {fields : Fields α} (h : fields.Ascending) (name : String)
    (value : α) : (insert name value fields).Ascending := by
  induction fields with
  | nil => simp [Ascending, names]
  | cons field rest ih =>
      obtain ⟨hfirst, hrest⟩ := List.pairwise_cons.mp h
      unfold insert
      split
      · next hlt =>
          refine List.pairwise_cons.mpr ⟨fun other hmem => ?_, h⟩
          rcases List.mem_cons.mp hmem with rfl | hmem
          · exact hlt
          · exact String.lt_trans hlt (hfirst other hmem)
      · next hlt =>
          split
          · next heq =>
              subst heq
              exact List.pairwise_cons.mpr ⟨hfirst, hrest⟩
          · next hne =>
              have hgt : field.1 < name :=
                Std.lt_of_le_of_ne (String.not_lt.mp hlt) (Ne.symm hne)
              refine List.pairwise_cons.mpr ⟨fun other hmem => ?_, ih hrest⟩
              rcases (mem_names_insert rest name other value).mp hmem with rfl | hmem
              · exact hgt
              · exact hfirst other hmem

/-- The fields of a list of pairs ascend. -/
theorem ascending_ofList (pairs : List (String × α)) : (ofList pairs).Ascending := by
  have hfold : ∀ (pairs : List (String × α)) {fields : Fields α}, fields.Ascending →
      (pairs.foldl (fun fields pair => fields.insert pair.1 pair.2) fields).Ascending := by
    intro pairs
    induction pairs with
    | nil => exact fun h => h
    | cons pair rest ih => exact fun h => ih (ascending_insert h pair.1 pair.2)
  exact hfold pairs List.Pairwise.nil

end Fields

end YarnPreview
