import SolarBill.Proofs.Data.Carried
import SolarBill.Proofs.Data.Layer

/-!
# Settings that documents carry

A document of settings is read by other rules than one of records: limits are left out, other texts
are numbers, and a name must be a text.  A record whose scalars and names are legible for them is
carried by its document (`SettingsLayer.ofDocument?_render`).  The names of coefficients are words,
and words are legible, so coefficients are carried as soon as their scalars are legible
(`Coefficients.carries_encode`).
-/

namespace SolarBill

namespace SettingsLayer

open Yaml

/-- A scalar stands on one line, and what is written is the scalar where it is read as a setting. -/
def Legible (d : Datum) : Prop :=
  OnLine d ∧ ofNode? (leafNode d) = some d

instance : DecidablePred Legible :=
  fun d => inferInstanceAs (Decidable (OnLine d ∧ ofNode? (leafNode d) = some d))

/-- A name is short, and what is written is the name where it is read as the key of a setting. -/
def LegibleName (n : String) : Prop :=
  Print.isSimpleName n = true ∧ keyName? (.scalar none (lineStyle n) n) = some (true, n)

mutual

/-- A legible and tidy tree is read from its node as settings. -/
theorem ofNode?_nodeOf : ∀ {d : Datum}, d.Every Legible LegibleName → d.Tidy →
    ofNode? (nodeOf d) = some d
  | .list (d :: rest), h, htidy => by
      rw [nodeOf, ofNode?, ofItems?_nodesOf h htidy]
      rfl
  | .record (f :: rest), h, htidy => by
      rw [Datum.Tidy] at htidy
      rw [nodeOf, ofNode?, ofEntries?_entriesOf h htidy.1 htidy.2 fun _ _ => List.not_mem_nil,
        Option.map_some, Reader.distinctEntries_of_nodup htidy.1]
  | .null, h, _ | .flag _, h, _ | .whole _, h, _ | .real _, h, _ | .text _, h, _ => h.2
  | .list [], _, _ | .record [], _, _ => rfl

theorem ofItems?_nodesOf : ∀ {ds : List Datum}, Datum.EveryItem Legible LegibleName ds →
    Datum.TidyItems ds → ofItems? (nodesOf ds) = some ds
  | [], _, _ => rfl
  | d :: rest, h, htidy => by
      rw [nodesOf, ofItems?, ofNode?_nodeOf h.1 htidy.1, ofItems?_nodesOf h.2 htidy.2]
      rfl

theorem ofEntries?_entriesOf : ∀ {fs : List (String × Datum)} {keys : List (Bool × String)},
    Datum.EveryField Legible LegibleName fs → (fs.map Prod.fst).Nodup → Datum.TidyFields fs →
      (∀ f ∈ fs, (true, f.1) ∉ keys) → ofEntries? keys (entriesOf fs) = some fs
  | [], _, _, _, _, _ => rfl
  | (n, d) :: rest, keys, h, hnodup, htidy, hnew => by
      rw [List.map_cons, List.nodup_cons] at hnodup
      rw [List.forall_mem_cons] at hnew
      have hkey : keys.contains (true, n) = false := by
        rw [← Bool.not_eq_true, List.contains_iff_mem]
        exact hnew.1
      have hrest : ∀ f ∈ rest, (true, f.1) ∉ (true, n) :: keys := by
        intro f hf
        rw [List.mem_cons, not_or]
        refine ⟨?_, hnew.2 f hf⟩
        intro heq
        have hname : f.1 = n := (Prod.mk.inj heq).2
        exact hnodup.1 (List.mem_map.mpr ⟨f, hf, hname⟩)
      rw [entriesOf, ofEntries?, h.1.2]
      simp only [Option.bind_eq_bind, Option.bind_some, hkey, Bool.false_eq_true, if_false]
      rw [ofNode?_nodeOf h.2.1 htidy.1, ofEntries?_entriesOf h.2.2 hnodup.2 htidy.2 hrest]
      rfl

end

/-- A document without a byte order mark is read as it is. -/
theorem ofDocument?_of_clean {s : String} (h : Clean s) {root : Node}
    {fs : List (String × Datum)} (hroot : documents? s = some [root])
    (hfields : ofNode? root = some (.record fs)) : ofDocument? s = some fs := by
  unfold ofDocument?
  split
  · next heq =>
    have hmark := h '\ufeff' (by simp [heq])
    exact absurd hmark (by decide)
  · simp only [hroot, hfields, Option.bind_eq_bind, Option.bind_some]

/-- **The settings of a document** that is written for a record are its fields, if every scalar and
every name is legible and no name is given twice. -/
theorem ofDocument?_render {f : String × Datum} {fs : List (String × Datum)}
    (h : (Datum.record (f :: fs)).Every Legible LegibleName)
    (htidy : (Datum.record (f :: fs)).Tidy) :
    ofDocument? (render (.record (f :: fs))) = some (f :: fs) := by
  have hparts : ¬ IsLeaf (.record (f :: fs)) := fun hleaf => hleaf
  have hlines : OnLines (.record (f :: fs)) := h.mono (fun _ => And.left) fun _ => And.left
  exact ofDocument?_of_clean (clean_render hparts hlines) (documents?_render hparts hlines)
    (ofNode?_nodeOf h htidy)

/-- A record is carried by a document that has its fields as settings. -/
theorem carries_of_ofDocument? {fs : SettingsLayer}
    (h : ofDocument? (render (.record fs)) = some fs) : Carries (.record fs) where
  faithful := by
    intro layer hlayer
    rw [h, Option.some.injEq] at hlayer
    rw [hlayer]
  readable := by
    intro _
    rw [h]
    rfl

/-! ### Names -/

variable {n : String}

/-- A word that means nothing else is a text. -/
theorem ofPlain?_of_word (h : IsWord n) : ofPlain? n = some (.text n) := by
  have hnull : ["", "~", "null"].contains n = false := h.not_contains (by decide)
  have hlimit : isLimitWord n = false := h.not_contains (by decide)
  have htrue : (n == "true") = false := beq_eq_false_iff_ne.mpr (h.ne_of_not (by decide))
  have hfalse : (n == "false") = false := beq_eq_false_iff_ne.mpr (h.ne_of_not (by decide))
  have hinteger : integer? 10 n = none := by
    rw [integer?, h.readInt?_eq]
    rfl
  have hmarked : markedInteger? n = none := by
    unfold markedInteger?
    split
    · next heq => exact absurd heq (h.toList_ne (by decide) _)
    · next heq => exact absurd heq (h.toList_ne (by decide) _)
    · next heq => exact absurd heq (h.toList_ne (by decide) _)
    · rfl
  have hnumber : number? n = none := by
    rw [number?, h.readFloat?_eq, ite_self]
  rw [ofPlain?, hnull, htrue, hfalse, hlimit, hmarked, hinteger, hnumber]
  rfl

/-- A word can be written plainly and is the same name everywhere. -/
theorem legibleName_of_word (h : IsNameWord n) : LegibleName n := by
  have htext : readsAsText n = true := by
    rw [readsAsText, Meaning.of_word h.1, h.1.isZeroPadded_eq]
    rfl
  have hstyle : lineStyle n = .plain := by
    rw [lineStyle, htext, h.1.plainText.plainAllowed]
    rfl
  have hvalue : ofScalar? none .plain n = some (.text n) := ofPlain?_of_word h.1
  refine ⟨h.isSimpleName, ?_⟩
  rw [hstyle, keyName?, hvalue]

end SettingsLayer

/-- Every name of a tree is a short word. -/
abbrev Datum.Named (d : Datum) : Prop :=
  d.Every (fun _ => True) Yaml.IsNameWord

open Datum

/-- All names of coefficients are words that mean nothing else. -/
theorem Coefficients.named_encode (c : Coefficients) : c.encode.Named := by
  have htext : ∀ o, Named (.optionText o) := every_option trivial fun _ => trivial
  have hroof : ∀ o, Named (.option Roof.encode o) := every_option trivial fun _ => trivial
  have hselection : ∀ o, Named (.option Selection.encode o) :=
    every_option trivial fun s =>
      ⟨by decide +kernel, trivial, by decide +kernel, trivial, trivial⟩
  have hbuckets : Named (.listOf Bucket.encode c.sizing) := by
    refine every_listOf fun b _ => ?_
    simp only [Bucket.encode, Every, EveryField, htext, true_and, and_true]
    decide +kernel
  have hnames : ∀ k ∈ Consumable.all, Yaml.IsNameWord k.name := by
    decide +kernel
  have hitems : Named (Consumable.encodeItems c.consumables) := by
    rw [Consumable.encodeItems, Named, Every, everyField_iff, List.forall_mem_map]
    intro k hk
    refine ⟨hnames k hk, ?_⟩
    simp only [FlatRate.encode, Every, EveryField, htext, true_and, and_true]
    decide +kernel
  simp only [encode, StringWiring.encode, DeviceWiring.encode, Grounding.encode, Labels.encode,
    Presets.encode, Every, EveryField, htext, hroof, hselection, hbuckets, hitems, true_and,
    and_true]
  decide +kernel

/-- **Coefficients are carried by their document** as settings if their scalars are legible. -/
theorem Coefficients.carries_encode {c : Coefficients}
    (h : c.encode.Every SettingsLayer.Legible fun _ => True) : SettingsLayer.Carries c.encode := by
  have hlegible := (h.and c.named_encode).mono (fun _ => And.left) fun _ hn =>
    SettingsLayer.legibleName_of_word hn.2
  exact SettingsLayer.carries_of_ofDocument?
    (SettingsLayer.ofDocument?_render hlegible (tidy_encode c))

end SolarBill
