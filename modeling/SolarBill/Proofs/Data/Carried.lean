import SolarBill.Data.Catalog
import SolarBill.Data.Plan
import SolarBill.Proofs.Data.Document
import SolarBill.Proofs.Yaml.Counts
import SolarBill.Proofs.Yaml.Nodes

/-!
# Trees that documents carry

A scalar is legible if it is written on one line, as what it is.  A tree of legible scalars is
carried by its document (`carries_of_legible`).  Nothing, flags, counts and texts on one line are
legible always, so a plan is carried by its document as soon as its texts stand on one line
(`Plan.carries_encode`).  Numbers with a fraction depend on their digits.
-/

namespace SolarBill

namespace Yaml

open Print

/-- A scalar stands on one line, and what is written means the scalar. -/
def Legible (d : Datum) : Prop :=
  OnLine d ∧ (leafNode d).tree? = some d

instance : DecidablePred Legible :=
  fun d => inferInstanceAs (Decidable (OnLine d ∧ (leafNode d).tree? = some d))

/-! ### Documents -/

section

variable {Q : String → Prop}

mutual

/-- The tree of the node that stands for a legible tree is this tree. -/
theorem tree?_nodeOf : ∀ {d : Datum}, d.Every Legible Q → (nodeOf d).tree? = some d
  | .list (d :: rest), h => by
      rw [nodeOf, Node.tree?, trees?_nodesOf h]
      rfl
  | .record (f :: rest), h => by
      rw [nodeOf, Node.tree?, fieldTrees?_entriesOf h]
      rfl
  | .null, h | .flag _, h | .whole _, h | .real _, h | .text _, h => h.2
  | .list [], _ | .record [], _ => rfl

theorem trees?_nodesOf : ∀ {ds : List Datum}, Datum.EveryItem Legible Q ds →
    Node.trees? (nodesOf ds) = some ds
  | [], _ => rfl
  | d :: rest, h => by
      rw [nodesOf, Node.trees?, tree?_nodeOf h.1, trees?_nodesOf h.2]
      rfl

theorem fieldTrees?_entriesOf : ∀ {fs : List (String × Datum)}, Datum.EveryField Legible Q fs →
    Node.fieldTrees? (entriesOf fs) = some fs
  | [], _ => rfl
  | (n, d) :: rest, h => by
      rw [entriesOf, Node.fieldTrees?, tree?_nodeOf h.2.1, fieldTrees?_entriesOf h.2.2]
      rfl

end

end

/-- **A tree is carried by its document** if every scalar is written on one line as what it is, and
every name is short. -/
theorem carries_of_legible {d : Datum} (hparts : ¬ IsLeaf d)
    (h : d.Every Legible (isSimpleName · = true)) : Carries d := by
  have hlines : OnLines d := h.mono (fun _ => And.left) fun _ => id
  rw [Carries, document?, (clean_render hparts hlines).readable, documents?_render hparts hlines]
  simp only [Bool.not_true, Bool.false_eq_true, if_false, Option.bind_eq_bind, Option.bind_some]
  exact tree?_nodeOf h

/-! ### Scalars -/

/-- The empty value is written as what it is. -/
theorem legible_null : Legible .null := by
  decide

theorem legible_flag (b : Bool) : Legible (.flag b) := by
  cases b <;> decide

/-- A count is written in its decimal digits. -/
theorem toString_count (n : UInt32) :
    toString (n.toNat : Int) = String.ofList (Nat.toDigits 10 n.toNat) :=
  Nat.repr_eq_ofList_toDigits

/-- Counts are legible. -/
theorem legible_count (n : UInt32) : Legible (.count n) := by
  have hlt : n.toNat < 2 ^ 128 := Nat.lt_trans n.toNat_lt (by decide)
  constructor
  · change Scalar.PlainText (toString (n.toNat : Int)).toList
    rw [toString_count, String.toList_ofList]
    exact plainText_toDigits _
  · change Node.tree? (.scalar none .plain (toString (n.toNat : Int))) = _
    rw [toString_count, Node.tree?, Meaning.of_toDigits hlt]
    rfl

/-- A text that is written plainly reads as a text. -/
theorem readsAsText_of_plain {s : String} (h : lineStyle s = .plain) : readsAsText s = true := by
  by_cases hplain : (readsAsText s && plainAllowed s.toList) = true
  · exact (Bool.and_eq_true_iff.mp hplain).1
  · rw [lineStyle, if_neg hplain] at h
    split at h <;> cases h

/-- What reads as a text means a text. -/
theorem of_eq_text {s : String} (h : readsAsText s = true) : Meaning.of s = .text := by
  rw [readsAsText] at h
  cases hmeaning : Meaning.of s with
  | text => rfl
  | _ =>
      rw [hmeaning] at h
      cases h

/-- A text on one line is quoted where it would mean something else. -/
theorem legible_text {s : String} (h : OneLine s) : Legible (.text s) := by
  refine ⟨h, ?_⟩
  rw [leafNode]
  by_cases hplain : lineStyle s = .plain
  · rw [hplain, Node.tree?, of_eq_text (readsAsText_of_plain hplain)]
  · exact Node.tree?.eq_2 _ _ hplain

end Yaml

/-! ### Plans -/

namespace Datum

/-- Nothing, a flag, a count or a text. -/
def IsBasic : Datum → Prop
  | .null | .flag _ | .text _ => True
  | .whole n => ∃ k : UInt32, n = k.toNat
  | _ => False

/-- A text stands on one line. -/
def TextOnLine : Datum → Prop
  | .text s => Yaml.OneLine s
  | _ => True

instance : DecidablePred TextOnLine
  | .text s => inferInstanceAs (Decidable (Yaml.OneLine s))
  | .null | .flag _ | .whole _ | .real _ | .list _ | .record _ => isTrue trivial

/-- A basic value is legible if its text stands on one line. -/
theorem legible_of_basic {d : Datum} (hbasic : d.IsBasic) (htext : d.TextOnLine) :
    Yaml.Legible d := by
  cases d with
  | null => exact Yaml.legible_null
  | flag b => exact Yaml.legible_flag b
  | whole n =>
      obtain ⟨k, rfl⟩ := hbasic
      exact Yaml.legible_count k
  | text s => exact Yaml.legible_text htext
  | real | list | record => exact hbasic.elim

end Datum

/-- Every scalar of a tree is basic, and every name is short. -/
abbrev Datum.Basic (d : Datum) : Prop :=
  d.Every IsBasic (Yaml.Print.isSimpleName · = true)

open Datum

/-- A plan holds nothing but flags, counts, texts and empty values. -/
theorem Plan.basic_encode (p : Plan) : p.encode.Basic := by
  have hcount : ∀ n, Basic (.count n) := fun n => ⟨n, rfl⟩
  have htext : ∀ o, Basic (.optionText o) := every_option trivial fun _ => trivial
  have hroof : ∀ o, Basic (.option Roof.encode o) := every_option trivial fun _ => trivial
  have hselection : ∀ o, Basic (.option Selection.encode o) :=
    every_option trivial fun s => ⟨by decide, trivial, by decide, hcount s.quantity, trivial⟩
  have hrows : ∀ counts, Basic (.listOf Layout.encodeRow counts) :=
    fun _ => every_listOf fun n _ => ⟨by decide, hcount n, trivial⟩
  have hstrings : ∀ strings, Basic (.listOf ModuleString.encode strings) :=
    fun _ => every_listOf fun s _ => ⟨by decide, trivial, by decide, hcount s.moduleCount, trivial⟩
  have hinverters : Basic (.listOf Inverter.encode p.inverters) :=
    every_listOf fun i _ =>
      ⟨by decide, trivial, by decide, hcount i.quantity, by decide, hstrings i.strings, trivial⟩
  simp only [encode, Layout.encode, Mounting.encode, Options.encode, Options.named,
    Electrical.encode, Electrical.named, Overrides.encode, Subsystem.all, Subsystem.name,
    Protection.encode, List.map_cons, List.map_nil, Every, EveryField, htext, hroof, hselection,
    hrows, hinverters, true_and, and_true]
  decide

/-- **A plan is carried by its document** if all its texts stand on one line. -/
theorem Plan.carries_encode {p : Plan} (h : p.encode.Every TextOnLine fun _ => True) :
    Yaml.Carries p.encode := by
  have hparts : ¬ Yaml.IsLeaf p.encode := fun hleaf => hleaf
  refine Yaml.carries_of_legible hparts ?_
  exact (p.basic_encode.and h).mono (fun _ h => legible_of_basic h.1 h.2) fun _ => And.left

/-- A catalogue is carried by its document if its scalars are legible and its names are short. -/
theorem Catalog.carries_encode {c : Catalog}
    (h : c.encode.Every Yaml.Legible (Yaml.Print.isSimpleName · = true)) :
    Yaml.Carries c.encode := by
  rw [Catalog.encode, Datum.listOf] at h ⊢
  cases hitems : c.toList.map Material.encode with
  | nil =>
      unfold Yaml.Carries
      decide +kernel
  | cons m rest =>
      rw [hitems] at h
      exact Yaml.carries_of_legible (fun hleaf => hleaf) h

end SolarBill
