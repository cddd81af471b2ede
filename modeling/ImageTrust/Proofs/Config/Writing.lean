import ImageTrust.Proofs.Config.Overrides
import ImageTrust.Proofs.Template.Layout
import ImageTrust.Proofs.Yaml.FlowValues

/-! # Writing configurations

Every configuration can be written as a mapping on one line, in any order of its fields, from which it is
read back: nothing in its texts is taken for a placeholder, for an indicator or for a value of another
kind.
-/

namespace ImageTrust.Config

open Record
open Yaml (FlowValue flowMapping)

/-! ## Writing -/

/-- A text that may be absent. -/
def flowOption : Option String → FlowValue
  | none => .null
  | some text => .text text

/-- The fields of a configuration as they are written. -/
def flowFields (c : Config) : List (String × FlowValue) :=
  [("base_image", flowOption c.image), ("dockerfile", flowOption c.dockerfile),
    ("certificates", .list c.certificates), ("user", flowOption c.user)]

/-- A text of a configuration, with its fields in some order. -/
def flowText (fields : List (String × FlowValue)) : String :=
  String.ofList (flowMapping fields)

/-- What is not printable, quotes, backslashes and dollar signs are escaped. -/
example : flowText [("user", .text "a \"$é\n"), ("dockerfile", .null), ("certificates", .list ["~", ""])] =
    "\x7b\"user\": \"a \\U00000022\\U00000024\\U000000E9\\U0000000A\", " ++
      "\"dockerfile\": null, \"certificates\": [\"~\", \"\"]\x7d" := by
  decide

/-! ## Fields -/

theorem flowOption_toDatum (text : Option String) : (flowOption text).toDatum = .ofOption text := by
  cases text <;> rfl

theorem optional_text_ofOption (o : Option String) : optional text (.ofOption o) = .ok o := by
  cases o <;> rfl

theorem isShortKey_of_mem_flowFields {c : Config} {e : String × FlowValue} (h : e ∈ flowFields c) :
    Yaml.IsShortKey e.1 := by
  have hnames : ∀ name ∈ ["base_image", "dockerfile", "certificates", "user"],
      (Yaml.quoted name).length ≤ 1024 := by decide
  exact hnames e.1 (List.mem_map_of_mem (f := Prod.fst) h)

theorem field?_of_mem {fields : List (String × Datum)} (hdistinct : (fields.map Prod.fst).Nodup)
    {name : String} {d : Datum} (h : (name, d) ∈ fields) : Datum.field? fields name = some d := by
  refine lookup_of_mem ?_ (List.mem_reverse.mpr h)
  rw [List.map_reverse]
  exact (List.reverse_perm _).nodup_iff.mpr hdistinct

/-- The fields of a configuration are valid in any order. -/
theorem validate_of_perm {c : Config} {fields : List (String × FlowValue)}
    (horder : fields.Perm (flowFields c)) :
    validate (fields.map fun e => (e.1, e.2.toDatum)) = .ok c := by
  have hdistinct : ((fields.map fun e => (e.1, e.2.toDatum)).map Prod.fst).Nodup := by
    rw [List.map_map]
    refine (horder.map Prod.fst).nodup_iff.mpr ?_
    simp [flowFields]
  have hfield : ∀ e ∈ flowFields c,
      Datum.field? (fields.map fun e => (e.1, e.2.toDatum)) e.1 = some e.2.toDatum := by
    intro e he
    exact field?_of_mem hdistinct (List.mem_map_of_mem
      (f := fun e : String × FlowValue => (e.1, e.2.toDatum)) (horder.mem_iff.mpr he))
  have hoption : ∀ (name : String) (o : Option String), (name, flowOption o) ∈ flowFields c →
      withDefault none (optional text) (fields.map fun e => (e.1, e.2.toDatum)) name = .ok o := by
    intro name o hmem
    refine withDefault_of_field? (hfield _ hmem) ?_
    rw [flowOption_toDatum, optional_text_ofOption]
  refine validate_eq_ok_iff.mpr ⟨hoption _ _ ?_, hoption _ _ ?_, ?_, hoption _ _ ?_⟩
  · simp [flowFields]
  · simp [flowFields]
  · exact withDefault_of_field? (hfield ("certificates", .list c.certificates) (by simp [flowFields]))
      (list_text_ofTexts c.certificates)
  · simp [flowFields]

theorem isLiteral_flowText (fields : List (String × FlowValue)) :
    Template.IsLiteral (flowText fields).toList := by
  rintro ⟨before, after, heq⟩
  have hdollar : '$' ∈ flowMapping fields := by
    rw [flowText, String.toList_ofList] at heq
    rw [← heq]
    simp
  exact (Yaml.of_mem_flowMapping hdollar).2 rfl

/-! ## Public theorem -/

/-- A configuration is read back from the mapping it is written as, whatever its texts are, in whatever
order its fields stand and whatever variables are set that override no field. -/
theorem ofText_flowText {vars : Variables} {c : Config} {fields : List (String × FlowValue)}
    (himage : filled? vars imageVariable = none)
    (hcertificates : filled? vars certificatesVariable = none) (horder : fields.Perm (flowFields c)) :
    ofText vars (flowText fields) = .ok c := by
  have hshort : ∀ e ∈ fields, Yaml.IsShortKey e.1 :=
    fun e he => isShortKey_of_mem_flowFields (horder.mem_iff.mp he)
  have hload := Yaml.load_flowMapping hshort
  have hfields : Config.fields vars (flowText fields) =
      .ok (fields.map fun e => (e.1, e.2.toDatum)) := by
    rw [Config.fields, Template.expand_of_isLiteral (isLiteral_flowText fields)]
    change ((Yaml.load (flowText fields)).mapError Error.yaml).bind _ = _
    rw [flowText, hload]
    rfl
  have hnone : overrides vars = [] := by
    rw [overrides, himage, hcertificates]
    rfl
  rw [ofText_eq_bind, hfields]
  change ofFields vars _ = _
  rw [ofFields, hnone, List.append_nil]
  exact validate_of_perm horder

/-- Texts that look like something else: a truth value, a number, a placeholder and nothing. -/
theorem ofText_flowText_words :
    (filled? [(imageVariable, ""), ("HOME", "/root")] imageVariable = none ∧
      filled? [(imageVariable, ""), ("HOME", "/root")] certificatesVariable = none ∧
      [("user", FlowValue.text "${HOME}"), ("certificates", .list ["1:30", "~", "a\nb"]),
        ("dockerfile", .null), ("base_image", .text "yes")].Perm
        (flowFields ⟨some "yes", none, ["1:30", "~", "a\nb"], some "${HOME}"⟩)) ∧
      ofText [(imageVariable, ""), ("HOME", "/root")]
        (flowText [("user", .text "${HOME}"), ("certificates", .list ["1:30", "~", "a\nb"]),
          ("dockerfile", .null), ("base_image", .text "yes")]) =
        .ok ⟨some "yes", none, ["1:30", "~", "a\nb"], some "${HOME}"⟩ := by
  have himage : filled? [(imageVariable, ""), ("HOME", "/root")] imageVariable = none := by decide
  have hcertificates : filled? [(imageVariable, ""), ("HOME", "/root")] certificatesVariable = none := by
    decide
  have horder : [("user", FlowValue.text "${HOME}"), ("certificates", .list ["1:30", "~", "a\nb"]),
      ("dockerfile", .null), ("base_image", .text "yes")].Perm
      (flowFields ⟨some "yes", none, ["1:30", "~", "a\nb"], some "${HOME}"⟩) := by decide
  exact ⟨⟨himage, hcertificates, horder⟩, ofText_flowText himage hcertificates horder⟩

end ImageTrust.Config
