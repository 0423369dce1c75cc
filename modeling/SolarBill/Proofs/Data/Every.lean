import SolarBill.Data.Tree

/-!
# What holds everywhere in a tree

Conditions on the scalars of a tree and on the names of its records (`Datum.Every`).  An empty list
and an empty record have no scalars.  Where both conditions can be decided, so can the condition on
the tree.
-/

namespace SolarBill.Datum

mutual

/-- Every scalar of a tree satisfies one condition, and every name another one. -/
def Every (P : Datum → Prop) (Q : String → Prop) : Datum → Prop
  | .list items => EveryItem P Q items
  | .record fields => EveryField P Q fields
  | d => P d

/-- The same for every item of a list. -/
def EveryItem (P : Datum → Prop) (Q : String → Prop) : List Datum → Prop
  | [] => True
  | d :: rest => Every P Q d ∧ EveryItem P Q rest

/-- The same for every field of a record. -/
def EveryField (P : Datum → Prop) (Q : String → Prop) : List (String × Datum) → Prop
  | [] => True
  | (n, d) :: rest => Q n ∧ Every P Q d ∧ EveryField P Q rest

end

section

variable {P P' : Datum → Prop} {Q Q' : String → Prop}

/-- A property of all items of a list. -/
theorem everyItem_iff {ds : List Datum} : EveryItem P Q ds ↔ ∀ d ∈ ds, Every P Q d := by
  induction ds with
  | nil => simp [EveryItem]
  | cons d rest ih => rw [EveryItem, ih, List.forall_mem_cons]

/-- A property of the names and the values of all fields. -/
theorem everyField_iff {fs : List (String × Datum)} :
    EveryField P Q fs ↔ ∀ f ∈ fs, Q f.1 ∧ Every P Q f.2 := by
  induction fs with
  | nil => simp [EveryField]
  | cons f rest ih => rw [EveryField, ih, List.forall_mem_cons, and_assoc]

mutual

/-- A weaker property holds of every part too. -/
theorem Every.mono (hP : ∀ d, P d → P' d) (hQ : ∀ n, Q n → Q' n) :
    ∀ {d : Datum}, Every P Q d → Every P' Q' d
  | .list _, h => EveryItem.mono hP hQ h
  | .record _, h => EveryField.mono hP hQ h
  | .null, h | .flag _, h | .whole _, h | .real _, h | .text _, h => hP _ h

theorem EveryItem.mono (hP : ∀ d, P d → P' d) (hQ : ∀ n, Q n → Q' n) :
    ∀ {ds : List Datum}, EveryItem P Q ds → EveryItem P' Q' ds
  | [], _ => trivial
  | _ :: _, h => ⟨Every.mono hP hQ h.1, EveryItem.mono hP hQ h.2⟩

theorem EveryField.mono (hP : ∀ d, P d → P' d) (hQ : ∀ n, Q n → Q' n) :
    ∀ {fs : List (String × Datum)}, EveryField P Q fs → EveryField P' Q' fs
  | [], _ => trivial
  | (_, _) :: _, h => ⟨hQ _ h.1, Every.mono hP hQ h.2.1, EveryField.mono hP hQ h.2.2⟩

end

mutual

/-- Two properties of every part. -/
theorem Every.and : ∀ {d : Datum}, Every P Q d → Every P' Q' d →
    Every (fun d => P d ∧ P' d) (fun n => Q n ∧ Q' n) d
  | .list _, h, h' => EveryItem.and h h'
  | .record _, h, h' => EveryField.and h h'
  | .null, h, h' | .flag _, h, h' | .whole _, h, h' | .real _, h, h' | .text _, h, h' => ⟨h, h'⟩

theorem EveryItem.and : ∀ {ds : List Datum}, EveryItem P Q ds → EveryItem P' Q' ds →
    EveryItem (fun d => P d ∧ P' d) (fun n => Q n ∧ Q' n) ds
  | [], _, _ => trivial
  | _ :: _, h, h' => ⟨h.1.and h'.1, h.2.and h'.2⟩

theorem EveryField.and : ∀ {fs : List (String × Datum)}, EveryField P Q fs → EveryField P' Q' fs →
    EveryField (fun d => P d ∧ P' d) (fun n => Q n ∧ Q' n) fs
  | [], _, _ => trivial
  | (_, _) :: _, h, h' => ⟨⟨h.1, h'.1⟩, h.2.1.and h'.2.1, h.2.2.and h'.2.2⟩

end

/-! ### Optional values and lists -/

/-- A value that may be missing has the properties of both cases. -/
theorem every_option {α : Type} {write : α → Datum} (hnull : P .null)
    (hwrite : ∀ a, Every P Q (write a)) (o : Option α) : Every P Q (.option write o) := by
  cases o with
  | none => exact hnull
  | some a => exact hwrite a

/-- A list has the property of everything that is written into it. -/
theorem every_listOf {α : Type} {write : α → Datum} {items : List α}
    (hwrite : ∀ a ∈ items, Every P Q (write a)) : Every P Q (.listOf write items) := by
  rw [listOf, Every, everyItem_iff]
  intro d hd
  obtain ⟨a, ha, rfl⟩ := List.mem_map.mp hd
  exact hwrite a ha

end

/-! ### Deciding -/

section

variable (P : Datum → Prop) (Q : String → Prop) [DecidablePred P] [DecidablePred Q]

mutual

/-- Decide a condition on every scalar and every name. -/
def decideEvery : (d : Datum) → Decidable (Every P Q d)
  | .list items => decideEveryItem items
  | .record fields => decideEveryField fields
  | .null => inferInstanceAs (Decidable (P .null))
  | .flag b => inferInstanceAs (Decidable (P (.flag b)))
  | .whole n => inferInstanceAs (Decidable (P (.whole n)))
  | .real x => inferInstanceAs (Decidable (P (.real x)))
  | .text s => inferInstanceAs (Decidable (P (.text s)))

/-- The same for every item of a list. -/
def decideEveryItem : (ds : List Datum) → Decidable (EveryItem P Q ds)
  | [] => isTrue trivial
  | d :: rest => @instDecidableAnd _ _ (decideEvery d) (decideEveryItem rest)

/-- The same for every field of a record. -/
def decideEveryField : (fs : List (String × Datum)) → Decidable (EveryField P Q fs)
  | [] => isTrue trivial
  | (n, d) :: rest =>
    @instDecidableAnd (Q n) _ _
      (@instDecidableAnd _ _ (decideEvery d) (decideEveryField rest))

end

instance : DecidablePred (Every P Q) :=
  decideEvery P Q

end

end SolarBill.Datum
