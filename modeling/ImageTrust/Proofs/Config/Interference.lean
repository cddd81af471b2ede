import ImageTrust.Proofs.Config.Overrides
import ImageTrust.Proofs.Template.Layout
import ImageTrust.Proofs.Yaml.Separation

/-! # What the value of a variable reaches

A variable that a text uses inside one field changes that field only, as long as its value is no syntax.
A value is put into the text before the text is read, so one that ends a line may begin another field.
-/

namespace ImageTrust.Config

open Record Yaml

variable {vars : Variables} {name content field v w : String} {mark : Char}

/-! ## Places and values -/

/-- The text, with a mark in the place of a variable, is a document in which the mark shows in the values
of one field only. -/
def ConfinedTo (vars : Variables) (name content : String) (mark : Char) (field : String) : Prop :=
  ∃ text d, Template.expand ((name, String.singleton mark) :: vars) content = .ok text ∧
    Document.read? text = .ok (some d) ∧ d.OnlyBelow mark field

/-- A value is no syntax: where it stands in the place of the mark, the text is cut into the same tokens,
except that those scalars that show the mark may be any other ones that do not look like merge keys. -/
def Inert (vars : Variables) (name content : String) (mark : Char) (value : String) : Prop :=
  EndsAlike
    (fun text text' => List.Forall₂ (Token.Alike mark) (tokens text.toList) (tokens text'.toList))
    (Template.expand ((name, String.singleton mark) :: vars) content)
    (Template.expand ((name, value) :: vars) content)

/-- Two configurations are the same, but for one field. -/
structure EqualOutside (field : String) (c c' : Config) : Prop where
  image : "base_image" ≠ field → c.image = c'.image
  dockerfile : "dockerfile" ≠ field → c.dockerfile = c'.dockerfile
  certificates : "certificates" ≠ field → c.certificates = c'.certificates
  user : "user" ≠ field → c.user = c'.user

/-! ## Fields -/

theorem of_load_eq_ok {text : String} {value : Datum} (h : Yaml.load text = .ok value) :
    (Document.read? text = .ok none ∧ value = .null) ∨
      ∃ d c, Document.read? text = .ok (some d) ∧ d.construct = .ok c ∧
        value = c.datum Document.levels d.root := by
  rw [Yaml.load] at h
  cases hread : Document.read? text with
  | error fault => rw [hread] at h; cases h
  | ok d =>
      rw [hread] at h
      cases d with
      | none => exact .inl ⟨rfl, (Except.ok.inj h).symm⟩
      | some d =>
          change d.construct.bind _ = _ at h
          cases hconstruct : d.construct with
          | error fault => rw [hconstruct] at h; cases h
          | ok c =>
              rw [hconstruct] at h
              exact .inr ⟨d, c, rfl, hconstruct, (Except.ok.inj h).symm⟩

theorem of_fields_eq_ok {fs : List (String × Datum)} (h : fields vars content = .ok fs) :
    ∃ text value, Template.expand vars content = .ok text ∧ Yaml.load text = .ok value ∧
      fs = recordFields value := by
  rw [fields] at h
  cases hexpand : Template.expand vars content with
  | error unset => rw [hexpand] at h; cases h
  | ok text =>
      rw [hexpand] at h
      change ((Yaml.load text).mapError Error.yaml).bind _ = _ at h
      cases hload : Yaml.load text with
      | error fault => rw [hload] at h; cases h
      | ok value =>
          rw [hload] at h
          refine ⟨text, value, rfl, hload, ?_⟩
          cases value with
          | null => exact (Except.ok.inj h).symm
          | record fields => exact (Except.ok.inj h).symm
          | _ => cases h

theorem of_ofText_eq_ok {c : Config} (h : ofText vars content = .ok c) :
    ∃ fs, fields vars content = .ok fs ∧ validate (fs ++ overrides vars) = .ok c := by
  rw [ofText_eq_bind] at h
  cases hfields : fields vars content with
  | error e => rw [hfields] at h; cases h
  | ok fs => rw [hfields] at h; exact ⟨fs, rfl, h⟩

/-- With a value that is no syntax, the fields are those of a document like the one with the mark. -/
theorem Inert.exists_alike {text : String} {d : Document} {fs : List (String × Datum)}
    (hv : Inert vars name content mark v)
    (hexpand : Template.expand ((name, String.singleton mark) :: vars) content = .ok text)
    (hread : Document.read? text = .ok (some d)) (hfields : fields ((name, v) :: vars) content = .ok fs) :
    ∃ d' c, d.Alike (Item.Shows mark) (MarkedAt mark (tokens text.toList)) d' ∧ d'.construct = .ok c ∧
      fs = recordFields (c.datum Document.levels d'.root) := by
  obtain ⟨text', value, hexpand', hload, rfl⟩ := of_fields_eq_ok hfields
  rw [Inert, hexpand, hexpand'] at hv
  have halike := Document.ofTokens?_alike hv
  rw [← Document.read?, ← Document.read?, hread] at halike
  rcases of_load_eq_ok hload with ⟨hnone, -⟩ | ⟨d', c, hsome, hconstruct, rfl⟩
  · rw [hnone] at halike
    cases halike
  · rw [hsome] at halike
    cases halike with
    | some h => exact ⟨d', c, h, hconstruct, rfl⟩

theorem field?_overrides_cons (himage : name = imageVariable → field = "base_image")
    (hcertificates : name = certificatesVariable → field = "certificates") {other : String}
    (hother : other ≠ field) :
    Datum.field? (overrides ((name, v) :: vars)) other =
      Datum.field? (overrides ((name, w) :: vars)) other := by
  have hfilled : ∀ overriding, name ≠ overriding →
      filled? ((name, v) :: vars) overriding = filled? ((name, w) :: vars) overriding := by
    intro overriding hne
    rw [filled?, filled?, List.lookup_cons, List.lookup_cons, beq_false_of_ne hne.symm]
  rw [field?_overrides, field?_overrides]
  split
  · next h => rw [hfilled _ fun hname => hother (h.trans (himage hname).symm)]
  · split
    · next h => rw [hfilled _ fun hname => hother (h.trans (hcertificates hname).symm)]
    · rfl

/-! ## Public theorem -/

/-- Values that are no syntax, of a variable that is used inside one field only and overrides no other,
lead to configurations that are the same but for that field. -/
theorem equalOutside_of_inert {c c' : Config} (hconfined : ConfinedTo vars name content mark field)
    (hv : Inert vars name content mark v) (hw : Inert vars name content mark w)
    (himage : name = imageVariable → field = "base_image")
    (hcertificates : name = certificatesVariable → field = "certificates")
    (hc : ofText ((name, v) :: vars) content = .ok c)
    (hc' : ofText ((name, w) :: vars) content = .ok c') : EqualOutside field c c' := by
  obtain ⟨text, d, hexpand, hread, honly⟩ := hconfined
  obtain ⟨fs, hfs, hvalid⟩ := of_ofText_eq_ok hc
  obtain ⟨fs', hfs', hvalid'⟩ := of_ofText_eq_ok hc'
  obtain ⟨d', b, halike, hb, rfl⟩ := hv.exists_alike hexpand hread hfs
  obtain ⟨d'', b', halike', hb', rfl⟩ := hw.exists_alike hexpand hread hfs'
  have hwritten := Document.ordinary_eq_nil_of_read? hread
  have hfield : ∀ other, other ≠ field →
      Datum.field? (recordFields (b.datum Document.levels d'.root) ++ overrides ((name, v) :: vars)) other =
        Datum.field? (recordFields (b'.datum Document.levels d''.root) ++ overrides ((name, w) :: vars))
          other := by
    intro other hother
    have hrecords := Document.field?_eq_of_onlyBelow hwritten halike halike' honly hb hb' hother 3
    rw [field?_append, field?_append, field?_overrides_cons himage hcertificates hother]
    exact congrArg _ hrecords.symm
  obtain ⟨h₁, h₂, h₃, h₄⟩ := validate_eq_ok_iff.mp hvalid
  obtain ⟨h₁', h₂', h₃', h₄'⟩ := validate_eq_ok_iff.mp hvalid'
  refine ⟨fun h => ?_, fun h => ?_, fun h => ?_, fun h => ?_⟩
  · rw [withDefault_congr _ _ (hfield _ h)] at h₁
    exact Except.ok.inj (h₁.symm.trans h₁')
  · rw [withDefault_congr _ _ (hfield _ h)] at h₂
    exact Except.ok.inj (h₂.symm.trans h₂')
  · rw [withDefault_congr _ _ (hfield _ h)] at h₃
    exact Except.ok.inj (h₃.symm.trans h₃')
  · rw [withDefault_congr _ _ (hfield _ h)] at h₄
    exact Except.ok.inj (h₄.symm.trans h₄')

/-! ## Images from a variable -/

/-- An image that a variable names, and a user. -/
def imageText : String :=
  "base_image: $\x7bIMAGE\x7d\nuser: app\n"

/-- That text with an image in the place of the variable. -/
def imageLines (image : String) : String :=
  "base_image: " ++ image ++ "\nuser: app\n"

/-- The tokens of these lines, if the image is no syntax. -/
def imageTokens (image : String) : List Token :=
  [.blockMappingStart, .key, .scalar "base_image" true, .value, .scalar image true,
    .key, .scalar "user" true, .value, .scalar "app" true, .blockEnd, .streamEnd]

theorem toList_imageLines (image : String) :
    (imageLines image).toList = "base_image: ".toList ++ image.toList ++ "\nuser: app\n".toList := by
  simp only [imageLines, String.toList_append]

theorem expand_imageText (image : String) :
    Template.expand [("IMAGE", image)] imageText = .ok (imageLines image) := by
  have hpieces : Template.pieces imageText.toList =
      "base_image: ".toList.map .char ++ .hole ⟨"IMAGE".toList, .required⟩ ::
        "\nuser: app\n".toList.map .char := by
    cbv
  have hvalue : Template.Piece.value [("IMAGE", image)] (.hole ⟨"IMAGE".toList, .required⟩) =
      .ok image.toList := by
    simp [Template.Piece.value, Template.Placeholder.value]
  have htail := Template.valueOf_literal_append [("IMAGE", image)] "\nuser: app\n".toList []
  rw [List.append_nil] at htail
  rw [Template.expand, hpieces, Template.valueOf_literal_append, Template.valueOf, hvalue, htail]
  simp [imageLines, Template.valueOf, Except.map, ← String.toList_inj]

/-- An image that is no syntax and looks like a text is read as that text. -/
theorem read?_imageLines {image : String} (htokens : tokens (imageLines image).toList = imageTokens image)
    (htag : Tag.ofPlain image = .str) :
    Document.read? (imageLines image) =
      .ok (some (flowDocument [("base_image", .text image), ("user", .text "app")])) := by
  have hitem : textItem image = .ofScalar 7 ⟨Tag.ofPlain image, image⟩ := by rw [htag]; rfl
  rw [Document.read?, htokens, flowDocument, flowItems, FlowValue.item, hitem]
  rfl

theorem ofText_of_read? {text : String} {entries : List (String × FlowValue)}
    (hexpand : Template.expand vars content = .ok text)
    (hread : Document.read? text = .ok (some (flowDocument entries))) :
    ofText vars content = ofFields vars (entries.map fun e => (e.1, e.2.toDatum)) := by
  have hfields : fields vars content = .ok (entries.map fun e => (e.1, e.2.toDatum)) := by
    rw [fields, hexpand]
    change ((Yaml.load text).mapError Error.yaml).bind _ = _
    rw [load_of_read?_eq entries hread]
    rfl
  rw [ofText_eq_bind, hfields]
  rfl

theorem ofText_imageText {image : String} (htokens : tokens (imageLines image).toList = imageTokens image)
    (htag : Tag.ofPlain image = .str) :
    ofText [("IMAGE", image)] imageText = .ok ⟨some image, none, [], some "app"⟩ := by
  rw [ofText_of_read? (expand_imageText image) (read?_imageLines htokens htag)]
  rfl

theorem tokens_imageLines_mark : tokens (imageLines "X").toList = imageTokens "X" := by
  rw [toList_imageLines]
  decide +kernel

theorem tokens_imageLines_alpine : tokens (imageLines "alpine").toList = imageTokens "alpine" := by
  rw [toList_imageLines]
  decide +kernel

theorem inert_imageText {image : String} (htokens : tokens (imageLines image).toList = imageTokens image)
    (hmerge : Tag.ofPlain image ≠ .merge) : Inert [] "IMAGE" imageText 'X' image := by
  rw [Inert, expand_imageText, expand_imageText]
  change List.Forall₂ _ (tokens (imageLines "X").toList) (tokens (imageLines image).toList)
  rw [tokens_imageLines_mark, htokens]
  have hsame : ∀ ts : List Token, List.Forall₂ (Token.Alike 'X') ts ts :=
    fun ts => List.forall₂_same.mpr fun t _ => .same t
  have himage : Token.Alike 'X' (.scalar "X" true) (.scalar image true) :=
    .scalar (by decide) (by decide) hmerge
  exact List.rel_append (hsame [.blockMappingStart, .key, .scalar "base_image" true, .value])
    (.cons himage (hsame _))

theorem confinedTo_imageText : ConfinedTo [] "IMAGE" imageText 'X' "base_image" := by
  have hread := read?_imageLines tokens_imageLines_mark (by decide)
  refine ⟨_, _, expand_imageText _, hread, .of_root rfl rfl fun entry hentry => ?_⟩
  have hcases : entry = (textItem "base_image", textItem "X") ∨
      entry = (textItem "user", textItem "app") := by
    simpa [flowItems, FlowValue.item] using hentry
  have hclean : ∀ text : String, 'X' ∉ text.toList → ∀ d : Document, d.Clean 'X' (textItem text) :=
    fun text htext d => .of_text? rfl htext
  rcases hcases with rfl | rfl
  · exact ⟨hclean _ (by decide) _, by decide, .inl rfl⟩
  · exact ⟨hclean _ (by decide) _, by decide, .inr (hclean _ (by decide) _)⟩

theorem equalOutside_of_inert_imageText :
    (ConfinedTo [] "IMAGE" imageText 'X' "base_image" ∧ Inert [] "IMAGE" imageText 'X' "alpine" ∧
      Inert [] "IMAGE" imageText 'X' "debian:12" ∧ "IMAGE" ≠ imageVariable ∧
      "IMAGE" ≠ certificatesVariable ∧
      ofText [("IMAGE", "alpine")] imageText = .ok ⟨some "alpine", none, [], some "app"⟩ ∧
      ofText [("IMAGE", "debian:12")] imageText = .ok ⟨some "debian:12", none, [], some "app"⟩) ∧
      EqualOutside "base_image" ⟨some "alpine", none, [], some "app"⟩
        ⟨some "debian:12", none, [], some "app"⟩ := by
  have htokens : tokens (imageLines "debian:12").toList = imageTokens "debian:12" := by
    rw [toList_imageLines]
    decide +kernel
  have hc := ofText_imageText tokens_imageLines_alpine (by decide)
  have hc' := ofText_imageText htokens (by decide)
  have himage : "IMAGE" ≠ imageVariable := by decide
  have hcertificates : "IMAGE" ≠ certificatesVariable := by decide
  have hinert := inert_imageText tokens_imageLines_alpine (by decide)
  have hinert' := inert_imageText htokens (by decide)
  exact ⟨⟨confinedTo_imageText, hinert, hinert', himage, hcertificates, hc, hc'⟩,
    equalOutside_of_inert confinedTo_imageText hinert hinert' (absurd · himage)
      (absurd · hcertificates) hc hc'⟩

/-! ## A value that ends its line -/

theorem ofText_imageText_lines :
    ofText [("IMAGE", "alpine\ndockerfile: evil")] imageText =
      .ok ⟨some "alpine", some "evil", [], some "app"⟩ := by
  have htokens : tokens (imageLines "alpine\ndockerfile: evil").toList =
      [.blockMappingStart, .key, .scalar "base_image" true, .value, .scalar "alpine" true,
        .key, .scalar "dockerfile" true, .value, .scalar "evil" true,
        .key, .scalar "user" true, .value, .scalar "app" true, .blockEnd, .streamEnd] := by
    rw [toList_imageLines]
    decide +kernel
  have hread : Document.read? (imageLines "alpine\ndockerfile: evil") =
      .ok (some (flowDocument
        [("base_image", .text "alpine"), ("dockerfile", .text "evil"), ("user", .text "app")])) := by
    rw [Document.read?, htokens]
    rfl
  rw [ofText_of_read? (expand_imageText _) hread]
  rfl

/-- A value that ends its line may begin another field. -/
theorem not_forall_equalOutside :
    ¬ ∀ (vars : Variables) (name content field v w : String) (mark : Char) (c c' : Config),
      ConfinedTo vars name content mark field → v ≠ "" → w ≠ "" →
      (name = imageVariable → field = "base_image") →
      (name = certificatesVariable → field = "certificates") →
      ofText ((name, v) :: vars) content = .ok c → ofText ((name, w) :: vars) content = .ok c' →
      EqualOutside field c c' := by
  intro hall
  have hc := ofText_imageText tokens_imageLines_alpine (by decide)
  have heq := hall [] "IMAGE" imageText "base_image" "alpine" "alpine\ndockerfile: evil" 'X' _ _
    confinedTo_imageText (by decide) (by decide) (fun _ => rfl) (absurd · (by decide)) hc
    ofText_imageText_lines
  exact absurd (heq.dockerfile (by decide)) (by decide)

end ImageTrust.Config
