import ImageTrust.Proofs.Certificate.Rendering
import ImageTrust.Proofs.Dockerfile.Appending

/-! # Rendered plans after the Dockerfile they are for -/

namespace ImageTrust

open Dockerfile Text

namespace Fragment

/-! ## Lines of a rendered plan -/

theorem fromFree_copyLines {entries : List CopyEntry}
    (h : ∀ entry ∈ entries, '\n' ∉ entry.source.toList ∧ '\n' ∉ entry.destination.toList)
    {rest : String} (hrest : FromFree rest.toList) :
    FromFree (String.join (entries.map copyLine) ++ rest).toList := by
  induction entries with
  | nil => simpa using hrest
  | cons entry entries ih =>
      obtain ⟨hsource, hdestination⟩ := h entry List.mem_cons_self
      have hothers := ih fun entry hmem => h entry (List.mem_cons_of_mem _ hmem)
      have hline : OtherLine ("COPY " ++ entry.source ++ " " ++ entry.destination).toList :=
        ⟨by simp [hsource, hdestination], 'C', by simp, by decide, by decide⟩
      rw [List.map_cons, String.join_cons, copyLine]
      simpa using hothers.otherLine_append hline

theorem fromFree_userLine (user : Option String) {name : String} (h : '\n' ∉ name.toList)
    {rest : String} (hrest : FromFree rest.toList) : FromFree (userLine user name ++ rest).toList := by
  rw [userLine]
  split
  · simpa using hrest
  · have hline : OtherLine ("USER " ++ name).toList := ⟨by simp [h], 'U', by simp, by decide, by decide⟩
    simpa using hrest.otherLine_append hline

/-- Commands that are joined by a backslash at the end of a line begin lines of their own. -/
theorem fromFree_intercalate {start : List Char} {first : String} {others : List String}
    (hsingle : '\n' ∉ start) (hstart : ∀ tail, StartsOther (start ++ (first.toList ++ tail)))
    (h : ∀ text ∈ first :: others, OtherLine text.toList)
    {rest : List Char} (hrest : FromFree rest) :
    FromFree (start ++ (String.intercalate " && \\\n    " (first :: others)).toList ++
      '\n' :: rest) := by
  -- after the first command the line start is the indentation
  induction others generalizing start first with
  | nil =>
      rw [String.intercalate_singleton]
      refine hrest.line_append ?_ ?_
      · simp [hsingle, (h first List.mem_cons_self).single]
      · rw [List.append_assoc]
        exact hstart _
  | cons second others ih =>
      have hothers : ∀ text ∈ second :: others, OtherLine text.toList :=
        fun text hmem => h text (List.mem_cons_of_mem _ hmem)
      have hindent : ∀ tail, StartsOther ("    ".toList ++ (second.toList ++ tail)) :=
        (hothers second List.mem_cons_self).startsOther (List.all_eq_true.mp (by decide))
      have hrun := ih (by decide) hindent hothers
      have hsingle' : '\n' ∉ start ++ (first.toList ++ " && \\".toList) := by
        simp [hsingle, (h first List.mem_cons_self).single]
      have hline := FromFree.line_append hsingle' (by
        rw [List.append_assoc, List.append_assoc]
        exact hstart _) hrun
      simpa [String.intercalate_cons_cons] using hline

theorem fromFree_runLines {commands : List String} (hne : commands ≠ [])
    (h : ∀ command ∈ commands, OtherLine command.toList)
    {rest : String} (hrest : FromFree rest.toList) : FromFree (runLines commands ++ rest).toList := by
  obtain ⟨first, others, rfl⟩ := List.exists_cons_of_ne_nil hne
  have hrun : ∀ tail, StartsOther ("RUN ".toList ++ (first.toList ++ tail)) :=
    fun tail => startsOther_append (List.forall_mem_nil _) (by decide) (by decide)
  have hlines := fromFree_intercalate (by decide) hrun h hrest
  simpa [runLines] using hlines

/-- A rendered plan opens no stage if its texts have no line ends. -/
theorem fromFree_render {plan : Plan} {user : Option String}
    (hentries : ∀ entry ∈ plan.copyEntries,
      '\n' ∉ entry.source.toList ∧ '\n' ∉ entry.destination.toList)
    (hcommands : ∀ command ∈ plan.commands, OtherLine command.toList)
    (huser : '\n' ∉ (user.getD "").toList) : FromFree (render plan user).toList := by
  rw [render]
  split
  · exact fromFree_nil
  · next hne =>
      have hend : FromFree "".toList := fromFree_nil
      have hlast := fromFree_userLine user huser hend
      rw [String.append_empty] at hlast
      have hrun := fromFree_runLines (by simpa using hne) hcommands hlast
      have hroot := fromFree_userLine user (by decide : '\n' ∉ "root".toList) hrun
      rw [String.append_assoc, String.append_assoc]
      exact fromFree_copyLines hentries hroot

end Fragment

namespace Certificate

variable {image : String} {certificates : List String}

theorem otherLine_of_mem_commands (h : ∀ path ∈ certificates, '\n' ∉ lastComponent path.toList)
    {command : String} (hcommand : command ∈ (Plan.of image certificates).commands) :
    OtherLine command.toList := by
  refine ⟨(plainLine_of_mem_commands h hcommand).single, ?_⟩
  rcases mem_commands_planOf hcommand with ⟨x, _, rfl⟩ | rfl | ⟨x, _, rfl⟩
  · exact ⟨'c', by simp [copyText], by decide⟩
  · exact ⟨'u', head?_refresh _, by decide⟩
  · exact ⟨'k', by simp [importText, head?_keytoolText], by decide⟩

/-! ## Public theorem -/

/-- The instructions for an image may be put after the Dockerfile that the image was found in: it has
the same base image as before, and the same plan is made for it. -/
theorem baseImage?_append_render {dockerfile : String} (hend : dockerfile.toList.getLast? = some '\n')
    (hlast : ∀ line, (contentLines dockerfile.toList).getLast? = some line → ¬ EndsInBackslash line)
    {given : Variables} (himage : baseImage? given dockerfile = some image) (hne : image ≠ "")
    (hnames : ∀ path ∈ certificates, '\n' ∉ lastComponent path.toList) {user : Option String}
    (huser : '\n' ∉ (user.getD "").toList) :
    (∀ other, baseImage? other (dockerfile ++ Fragment.render (Plan.of image certificates) user) =
        baseImage? other dockerfile) ∧
      (baseImage? given (dockerfile ++ Fragment.render (Plan.of image certificates) user)).map
        (Plan.of · certificates) = some (Plan.of image certificates) := by
  have hfree : FromFree (Fragment.render (Plan.of image certificates) user).toList :=
    Fragment.fromFree_render (fun entry hentry => newline_not_mem_copyEntry hnames hentry)
      (fun command hcommand => otherLine_of_mem_commands hnames hcommand) huser
  have happend := hfree.baseImage?_append (.inr hend) hlast himage hne
  refine ⟨happend, ?_⟩
  rw [happend, himage]
  rfl

/-- A Dockerfile that ends in a word without an argument, a file name and a user that end in a
backslash. -/
theorem baseImage?_append_render_alpine :
    baseImage? [] "ARG V=3\nFROM alpine:${V} AS base\nFROM Base\n# end \\\nEOF\n" = some "alpine:3" ∧
      (∀ other, baseImage? other ("ARG V=3\nFROM alpine:${V} AS base\nFROM Base\n# end \\\nEOF\n" ++
          Fragment.render (Plan.of "alpine:3" ["certs/ca\\"]) (some "app \\")) =
        baseImage? other "ARG V=3\nFROM alpine:${V} AS base\nFROM Base\n# end \\\nEOF\n") ∧
      (baseImage? [] ("ARG V=3\nFROM alpine:${V} AS base\nFROM Base\n# end \\\nEOF\n" ++
          Fragment.render (Plan.of "alpine:3" ["certs/ca\\"]) (some "app \\"))).map
        (Plan.of · ["certs/ca\\"]) = some (Plan.of "alpine:3" ["certs/ca\\"]) := by
  have himage : baseImage? [] "ARG V=3\nFROM alpine:${V} AS base\nFROM Base\n# end \\\nEOF\n" =
      some "alpine:3" := by
    decide +kernel
  have hnames : ∀ path ∈ ["certs/ca\\"], '\n' ∉ lastComponent path.toList := by decide
  exact ⟨himage, baseImage?_append_render (by decide) (by decide +kernel) himage (by decide) hnames
    (by decide)⟩

end Certificate

end ImageTrust
