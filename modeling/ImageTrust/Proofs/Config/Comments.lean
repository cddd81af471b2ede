import ImageTrust.Proofs.Config.EmptyFile
import ImageTrust.Proofs.Config.Rejection
import ImageTrust.Proofs.Template.Concatenation
import ImageTrust.Proofs.Yaml.CommentLines

/-! # Comments in configurations

Placeholders are replaced in comments as well. A comment in front of a configuration changes nothing if it
is still a comment after that.
-/

namespace ImageTrust.Config

open Template

variable {vars : Variables} {content : String}

theorem ofText_of_null {text : String} (hexpand : expand vars content = .ok text)
    (hload : Yaml.load text = .ok .null) : ofText vars content = .ok (ofOverrides vars) := by
  have hfields : fields vars content = .ok [] := by
    simp only [fields, hexpand, hload, Except.mapError, bind, Except.bind, pure, Except.pure]
  rw [← ofText_empty, ofText_eq_bind, ofText_eq_bind, hfields, fields_empty]

theorem ofText_of_text {text scalar : String} (hexpand : expand vars content = .ok text)
    (hload : Yaml.load text = .ok (.text scalar)) : ofText vars content = .error .notMapping := by
  simp only [ofText, fields, hexpand, hload, Except.mapError, bind, Except.bind, throw,
    throwThe, MonadExceptOf.throw]

/-! ## Comments that are none -/

/-- A comment changes what becomes of the text that it is put in front of. -/
structure Disturbs (vars : Variables) (line content : String) : Prop where
  comment : Yaml.IsCommentLine line.toList
  unmarked : content.toList.head? ≠ some '\uFEFF'
  changes : ofText vars (line ++ content) ≠ ofText vars content

/-- A variable that only a comment mentions has to be set. -/
theorem disturbs_unset : Disturbs [] "# base_image: $\x7bIMAGE\x7d\n" "" where
  comment := Yaml.isCommentLine_of_all " base_image: $\x7bIMAGE\x7d".toList rfl (by decide)
  unmarked := by decide
  changes := by
    have hexpand : expand [] ("# base_image: $\x7bIMAGE\x7d\n" ++ "") = .error ⟨"IMAGE"⟩ := by
      decide +kernel
    have hunset : ofText [] ("# base_image: $\x7bIMAGE\x7d\n" ++ "") = .error (.unset ⟨"IMAGE"⟩) := by
      rw [ofText_eq_bind, fields, hexpand]
      rfl
    rw [hunset, ofText_empty]
    intro heq
    cases heq

/-- A value that ends its line ends the comment. -/
theorem disturbs_lineBreak : Disturbs [("NOTE", "a\nb")] "# $\x7bNOTE\x7d\n" "" where
  comment := Yaml.isCommentLine_of_all " $\x7bNOTE\x7d".toList rfl (by decide)
  unmarked := by decide
  changes := by
    have hexpand : expand [("NOTE", "a\nb")] ("# $\x7bNOTE\x7d\n" ++ "") = .ok "# a\nb\n" := by
      decide +kernel
    have htokens : Yaml.tokens "# a\nb\n".toList = [.scalar "b" true, .streamEnd] := by decide +kernel
    have hload : Yaml.load "# a\nb\n" = .ok (.text "b") := by
      rw [Yaml.load, Yaml.Document.read?, htokens]
      rfl
    rw [ofText_of_text hexpand hload, ofText_empty]
    intro heq
    cases heq

/-- A placeholder that opens in a comment takes in what comes after it. -/
theorem disturbs_spans : Disturbs [] "# $\x7bNOTE:-\n" "\x7d" where
  comment := Yaml.isCommentLine_of_all " $\x7bNOTE:-".toList rfl (by decide)
  unmarked := by decide
  changes := by
    have hexpand : expand [] ("# $\x7bNOTE:-\n" ++ "\x7d") = .ok "# \n" := by decide +kernel
    have htokens : Yaml.tokens "# \n".toList = [.streamEnd] := by decide +kernel
    have hload : Yaml.load "# \n" = .ok .null := by
      rw [Yaml.load, Yaml.Document.read?, htokens]
      rfl
    have hexpand' : expand [] "\x7d" = .ok "\x7d" := by decide +kernel
    have htokens' : Yaml.tokens "\x7d".toList = [.flowMappingEnd, .streamEnd] := by decide +kernel
    have hload' : Yaml.load "\x7d" = .error .malformed := by
      rw [Yaml.load, Yaml.Document.read?, htokens']
      rfl
    rw [ofText_of_null hexpand hload, ofText_of_load_eq_error hexpand' hload']
    intro heq
    cases heq

/-- A byte order mark that a variable brings in is no mark behind a comment. -/
theorem disturbs_mark : Disturbs [("MARK", "\uFEFF")] "#\n" "$\x7bMARK\x7d" where
  comment := Yaml.isCommentLine_of_all [] rfl (by decide)
  unmarked := by decide
  changes := by
    have hexpand : expand [("MARK", "\uFEFF")] ("#\n" ++ "$\x7bMARK\x7d") = .ok "#\n\uFEFF" := by
      decide +kernel
    have htokens : Yaml.tokens "#\n\uFEFF".toList = [.scalar "\uFEFF" true, .streamEnd] := by decide +kernel
    have hload : Yaml.load "#\n\uFEFF" = .ok (.text "\uFEFF") := by
      rw [Yaml.load, Yaml.Document.read?, htokens]
      rfl
    have hexpand' : expand [("MARK", "\uFEFF")] "$\x7bMARK\x7d" = .ok "\uFEFF" := by decide +kernel
    have htokens' : Yaml.tokens "\uFEFF".toList = [.streamEnd] := by decide +kernel
    have hload' : Yaml.load "\uFEFF" = .ok .null := by
      rw [Yaml.load, Yaml.Document.read?, htokens']
      rfl
    rw [ofText_of_text hexpand hload, ofText_of_null hexpand' hload']
    intro heq
    cases heq

/-! ## Public theorem -/

/-- A comment in front of a configuration changes nothing, if no placeholder reaches out of it, if it is a
comment with its placeholders replaced, and if no byte order mark comes behind it. -/
theorem ofText_comment_append {line shown : String} (hspans : ¬ Spans line.toList content.toList)
    (hshown : expand vars line = .ok shown) (hcomment : Yaml.IsCommentLine shown.toList)
    (hmark : ∀ text, expand vars content = .ok text → text.toList.head? ≠ some '\uFEFF') :
    ofText vars (line ++ content) = ofText vars content := by
  have hfields : fields vars (line ++ content) = fields vars content := by
    rw [fields, fields, expand_append_of_ok hspans hshown]
    cases hexpand : expand vars content with
    | error unset => rfl
    | ok text =>
        have hload := hcomment.load_append (hmark text hexpand)
        simp only [Except.map, Except.mapError, bind, Except.bind, hload]
  rw [ofText_eq_bind, ofText_eq_bind, hfields]

/-- A commented entry whose variable is set. -/
theorem ofText_comment_append_variable :
    ¬ Spans "# base_image: $\x7bIMAGE\x7d\n".toList "user: $\x7bNAME:-app\x7d\n".toList ∧
      expand [("IMAGE", "alpine")] "# base_image: $\x7bIMAGE\x7d\n" = .ok "# base_image: alpine\n" ∧
      Yaml.IsCommentLine "# base_image: alpine\n".toList ∧
      expand [("IMAGE", "alpine")] "user: $\x7bNAME:-app\x7d\n" = .ok "user: app\n" ∧
      ofText [("IMAGE", "alpine")] ("# base_image: $\x7bIMAGE\x7d\n" ++ "user: $\x7bNAME:-app\x7d\n") =
        ofText [("IMAGE", "alpine")] "user: $\x7bNAME:-app\x7d\n" := by
  have hspans : ¬ Spans "# base_image: $\x7bIMAGE\x7d\n".toList "user: $\x7bNAME:-app\x7d\n".toList :=
    Separate.not_spans (by decide)
  have hshown : expand [("IMAGE", "alpine")] "# base_image: $\x7bIMAGE\x7d\n" =
      .ok "# base_image: alpine\n" := by decide +kernel
  have hcomment : Yaml.IsCommentLine "# base_image: alpine\n".toList :=
    Yaml.isCommentLine_of_all " base_image: alpine".toList rfl (by decide)
  have hcontent : expand [("IMAGE", "alpine")] "user: $\x7bNAME:-app\x7d\n" = .ok "user: app\n" := by
    decide +kernel
  refine ⟨hspans, hshown, hcomment, hcontent, ?_⟩
  refine ofText_comment_append hspans hshown hcomment fun text htext => ?_
  cases hcontent.symm.trans htext
  decide

/-- A comment is not always inert: each of the conditions is needed. -/
theorem comment_disturbs :
    Disturbs [] "# base_image: $\x7bIMAGE\x7d\n" "" ∧
      Disturbs [("NOTE", "a\nb")] "# $\x7bNOTE\x7d\n" "" ∧
      Disturbs [] "# $\x7bNOTE:-\n" "\x7d" ∧
      Disturbs [("MARK", "\uFEFF")] "#\n" "$\x7bMARK\x7d" :=
  ⟨disturbs_unset, disturbs_lineBreak, disturbs_spans, disturbs_mark⟩

end ImageTrust.Config
