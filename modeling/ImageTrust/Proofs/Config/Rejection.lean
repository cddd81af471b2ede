import ImageTrust.Proofs.Yaml.Fitting
import ImageTrust.Proofs.Yaml.Parsing

/-! # Texts that are rejected

A text that is no configuration is rejected with an error that is reported, unless its YAML has a fault
that nobody expects: an escape that is past all numbers of characters, or a node that does not fit its
tag.
-/

namespace ImageTrust.Config

open CommandLine (isReported)

variable {vars : Variables} {content text : String} {fault : Yaml.Fault}

/-- Whether an error is reported as one. Of all errors only faults of the YAML may be unexpected. -/
def Error.isReported : Error → Bool
  | .yaml fault => CommandLine.isReported fault
  | _ => true

/-- What is behind a fault of a text that is not reported. -/
inductive Unexpected (text : String) : Yaml.Fault → Prop
  | escape {number : Nat} (h : Yaml.HasEscape text.toList number) (hnumber : 0x80000000 ≤ number) :
      Unexpected text (.codePoint number)
  | place {d a : Yaml.Document} {item : Yaml.Item} {fault : Yaml.Fault}
      (hread : Yaml.Document.read? text = .ok (some d)) (hbecomes : d.Becomes a)
      (hitem : d.Holds item) (hunfit : a.Unfit item fault) : Unexpected text fault

theorem Unexpected.isReported (h : Unexpected text fault) : isReported fault = false := by
  cases h with
  | escape _ hnumber => exact decide_eq_false (Nat.not_lt.mpr hnumber)
  | place _ _ _ hunfit => exact hunfit.isReported

/-- A fault is reported, or something unexpected is behind it. -/
abbrev Accounted (text : String) (fault : Yaml.Fault) : Prop :=
  CommandLine.isReported fault ∨ Unexpected text fault

theorem accounted_of_textFault (h : Yaml.TextFault text.toList fault) : Accounted text fault := by
  rcases h with rfl | ⟨number, rfl, hescape⟩
  · exact .inl rfl
  · by_cases hnumber : number < 0x80000000
    · exact .inl (decide_eq_true hnumber)
    · exact .inr (.escape hescape (Nat.not_lt.mp hnumber))

theorem accounted_of_placeFault {d : Yaml.Document} (hread : Yaml.Document.read? text = .ok (some d))
    (h : d.PlaceFault fault) : Accounted text fault := by
  rcases h with rfl | ⟨a, item, hbecomes, hitem, hscalar⟩
  · exact .inl rfl
  · have hends := a.ends_readScalar item
    rw [hscalar] at hends
    exact hends.imp_right (.place hread hbecomes hitem)

theorem ends_load (text : String) : Yaml.Ends (fun _ => True) (Accounted text) (Yaml.load text) := by
  have hdocument : Yaml.Ends (fun document => Yaml.Document.read? text = .ok document) (Accounted text)
      (Yaml.Document.read? text) := by
    cases hread : Yaml.Document.read? text with
    | ok document => rfl
    | error fault => exact accounted_of_textFault (Yaml.textFault_of_read?_eq_error hread)
  refine Yaml.Ends.bind hdocument fun document hread => ?_
  cases document with
  | none => trivial
  | some d =>
      have hconstruct := d.ends_construct.mono (fun _ h => h) fun _ => accounted_of_placeFault hread
      exact Yaml.Ends.bind hconstruct fun _ _ => trivial

theorem isReported_of_ofFields {fields : List (String × Datum)} {e : Error}
    (h : ofFields vars fields = .error e) : e.isReported := by
  unfold ofFields at h
  cases hread : Config.read (.record (fields ++ overrides vars)) with
  | ok config =>
      rw [hread] at h
      cases h
  | error complaints =>
      rw [hread] at h
      cases h
      rfl

theorem ofText_of_load_eq_error (hexpand : Template.expand vars content = .ok text)
    (hload : Yaml.load text = .error fault) : ofText vars content = .error (.yaml fault) := by
  simp only [ofText, fields, hexpand, hload, Except.mapError, bind, Except.bind]

/-- Only the reading of the YAML ends in an error that is not reported. -/
theorem exists_of_ofText_eq_error {e : Error} (h : ofText vars content = .error e)
    (he : e.isReported = false) :
    ∃ text fault, e = .yaml fault ∧ Template.expand vars content = .ok text ∧
      Yaml.load text = .error fault := by
  unfold ofText fields at h
  cases hexpand : Template.expand vars content with
  | error unset =>
      rw [hexpand] at h
      cases h
      cases he
  | ok text =>
      cases hload : Yaml.load text with
      | error fault =>
          simp only [hexpand, hload, Except.mapError, bind, Except.bind] at h
          cases h
          exact ⟨text, fault, rfl, rfl, hload⟩
      | ok value =>
          simp only [hexpand, hload, Except.mapError, bind, Except.bind] at h
          -- what comes after the reading has reported errors only
          exfalso
          have hfields : ∀ fields, ofFields vars fields ≠ .error e := by
            intro fields herror
            rw [isReported_of_ofFields herror] at he
            cases he
          cases value with
          | null => exact hfields [] h
          | record fields => exact hfields fields h
          | _ =>
              cases h
              cases he

/-- A text is rejected with an error that is not reported exactly if its YAML has a fault that nobody
expects. -/
theorem ofText_unexpected_iff (vars : Variables) (content : String) (e : Error) :
    (ofText vars content = .error e ∧ e.isReported = false) ↔
      ∃ text fault, e = .yaml fault ∧ Template.expand vars content = .ok text ∧
        Yaml.load text = .error fault ∧ Unexpected text fault := by
  refine ⟨?_, ?_⟩
  · rintro ⟨herror, hreported⟩
    obtain ⟨text, fault, rfl, hexpand, hload⟩ := exists_of_ofText_eq_error herror hreported
    have hends := ends_load text
    rw [hload] at hends
    exact ⟨text, fault, rfl, hexpand, hload,
      hends.resolve_left (by simpa [Error.isReported] using hreported)⟩
  · rintro ⟨text, fault, rfl, hexpand, hload, hunexpected⟩
    exact ⟨ofText_of_load_eq_error hexpand hload, hunexpected.isReported⟩

/-! ## A tag that its text does not fit -/

/-- The document of `user: !!bool maybe`. -/
def maybeDocument : Yaml.Document where
  root := .node 0
  collections := [(0, .mapping .map [(.leaf ⟨.str, "user"⟩, .leaf ⟨.bool, "maybe"⟩)])]

theorem construct_maybeDocument : maybeDocument.construct = .error (.notBool "maybe") :=
  rfl

theorem load_maybe : Yaml.load "user: !!bool maybe\n" = .error (.notBool "maybe") := by
  have htokens : Yaml.tokens "user: !!bool maybe\n".toList =
      [.blockMappingStart, .key, .scalar "user" true, .value, .tag (some "!!") "bool",
        .scalar "maybe" true, .blockEnd, .streamEnd] := by
    decide +kernel
  have hread : Yaml.Document.read? "user: !!bool maybe\n" = .ok (some maybeDocument) := by
    rw [Yaml.Document.read?, htokens]
    rfl
  rw [Yaml.load, hread]
  change (maybeDocument.construct >>= fun c => .ok (c.datum Yaml.Document.levels maybeDocument.root)) = _
  rw [construct_maybeDocument]
  rfl

/-- An unfit tag is not reported as an error. -/
theorem not_forall_isReported : ¬ ∀ (vars : Variables) (content : String),
    (∃ config, ofText vars content = .ok config) ∨
      ∃ e, ofText vars content = .error e ∧ e.isReported := by
  intro hall
  have hexpand : Template.expand [] "user: !!bool maybe\n" = .ok "user: !!bool maybe\n" := by
    decide +kernel
  have herror := ofText_of_load_eq_error hexpand load_maybe
  rcases hall [] "user: !!bool maybe\n" with ⟨config, hconfig⟩ | ⟨e, he, hreported⟩
  · rw [herror] at hconfig
    cases hconfig
  · rw [herror] at he
    cases he
    cases hreported

end ImageTrust.Config
