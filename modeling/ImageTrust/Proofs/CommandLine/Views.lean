import ImageTrust.Proofs.Certificate.Rendering
import ImageTrust.Proofs.CommandLine.Printing
import ImageTrust.Proofs.CommandLine.Running
import ImageTrust.Proofs.Text.Pieces
import ImageTrust.Workspace

/-! # Views of a plan

Two commands print the parts of a plan, a line each; a third one prints the whole plan as a fragment. The
fragment consists of the lines of the other two.
-/

namespace ImageTrust.CommandLine

open Text

/-! ## Lines -/

/-- The lines of a text. A line end at its end does not start another line. -/
def linesOf (text : String) : List String :=
  let pieces := splitAt '\n' text.toList
  (if pieces.getLast? = some [] then pieces.dropLast else pieces).map String.ofList

theorem linesOf_join {lines : List String} (h : ∀ line ∈ lines, '\n' ∉ line.toList) :
    linesOf (String.join (lines.map (· ++ "\n"))) = lines := by
  have hpieces : splitAt '\n' (String.join (lines.map (· ++ "\n"))).toList =
      lines.map String.toList ++ [[]] := by
    induction lines with
    | nil => rfl
    | cons line lines ih =>
        have htext : (String.join ((line :: lines).map (· ++ "\n"))).toList =
            line.toList ++ '\n' :: (String.join (lines.map (· ++ "\n"))).toList := by
          simp [String.join_cons]
        rw [htext, splitAt_append_cons _ (h line List.mem_cons_self),
          ih fun line hline => h line (List.mem_cons_of_mem _ hline)]
        rfl
  rw [linesOf, hpieces]
  simp

/-! ## Printed lines -/

theorem printed_empty : printed "" = "" := by
  simp [printed, dropSequences]

/-- Printing goes piece by piece where a character outside all sequences parts the pieces. -/
theorem printed_append_of_head {rest : String} {c : Char} (hc : isOutside c)
    (hrest : rest.toList.head? = some c) (text : String) :
    printed (text ++ rest) = printed text ++ printed rest := by
  obtain ⟨more, hmore⟩ := List.head?_eq_some_iff.mp hrest
  rw [← String.toList_inj, printed, printed, printed, String.toList_append, String.toList_append, hmore,
    String.toList_ofList, String.toList_ofList, String.toList_ofList, dropSequences_append_cons hc,
    dropSequences_cons_of_ne (isOutside_iff.mp hc).1]

theorem printed_append_of_not_mem {text : String} (h : '\x1b' ∉ text.toList) (rest : String) :
    printed (text ++ rest) = text ++ printed rest := by
  rw [← String.toList_inj, printed, printed, String.toList_append, String.toList_append,
    String.toList_ofList, String.toList_ofList, dropSequences_append_of_not_mem h]

theorem printed_line (line rest : String) :
    printed (line ++ "\n" ++ rest) = printed line ++ "\n" ++ printed rest := by
  have hbreak : '\x1b' ∉ "\n".toList := by decide
  have houtside : isOutside '\n' := by decide
  rw [String.append_assoc, printed_append_of_head houtside (by simp), printed_append_of_not_mem hbreak,
    String.append_assoc]

theorem printed_terminated (line : String) : printed (line ++ "\n") = printed line ++ "\n" := by
  have hline := printed_line line ""
  rwa [String.append_empty, printed_empty, String.append_empty] at hline

theorem newline_not_mem_printed {line : String} (h : '\n' ∉ line.toList) :
    '\n' ∉ (printed line).toList := by
  rw [printed, String.toList_ofList]
  exact fun hmem => h ((dropSequences_sublist line.toList).subset hmem)

/-- Lines are printed one by one. -/
theorem linesOf_printLines {lines : List String} (h : ∀ line ∈ lines, '\n' ∉ line.toList)
    (log : String) : linesOf (printLines log lines).stdout = lines.map printed := by
  have hstdout : (printLines log lines).stdout = String.join ((lines.map printed).map (· ++ "\n")) := by
    simp only [printLines, List.map_map, Function.comp_def, printed_terminated]
  rw [hstdout, linesOf_join]
  intro line hline
  obtain ⟨text, htext, rfl⟩ := List.mem_map.mp hline
  exact newline_not_mem_printed (h text htext)

/-! ## Printed fragments -/

/-- What stands between two commands of a fragment. -/
def commandSeparator : String :=
  " && \\\n    "

theorem printed_copyLines (entries : List CopyEntry) (rest : String) :
    printed (String.join (entries.map Fragment.copyLine) ++ rest) =
      String.join (entries.map fun entry =>
        "COPY " ++ printed (entry.source ++ " " ++ entry.destination) ++ "\n") ++ printed rest := by
  induction entries with
  | nil => simp
  | cons entry entries ih =>
      have hcopy : '\x1b' ∉ "COPY ".toList := by decide
      have hline : Fragment.copyLine entry ++ (String.join (entries.map Fragment.copyLine) ++ rest) =
          "COPY " ++ (entry.source ++ " " ++ entry.destination) ++ "\n" ++
            (String.join (entries.map Fragment.copyLine) ++ rest) := by
        rw [Fragment.copyLine, ← String.toList_inj]
        simp
      rw [List.map_cons, List.map_cons, String.join_cons, String.join_cons, String.append_assoc, hline,
        printed_line, printed_append_of_not_mem hcopy, ih]
      simp only [String.append_assoc]

theorem printed_intercalate (first : String) (others : List String) :
    printed (String.intercalate commandSeparator (first :: others) ++ "\n") =
      String.intercalate commandSeparator ((first :: others).map printed) ++ "\n" := by
  have hseparator : '\x1b' ∉ commandSeparator.toList := by decide
  induction others generalizing first with
  | nil => simp [printed_terminated]
  | cons second others ih =>
      have hhead : ∀ rest, (commandSeparator ++ rest).toList.head? = some ' ' := by
        intro rest
        simp [commandSeparator]
      rw [String.intercalate_cons_cons, String.append_assoc, String.append_assoc,
        printed_append_of_head (by decide) (hhead _), printed_append_of_not_mem hseparator, ih]
      simp only [List.map_cons, String.intercalate_cons_cons, String.append_assoc]

/-- A fragment made of lines: those of the files to copy, and those of the commands. -/
def fragmentOfLines (copies commands : List String) : String :=
  String.join (copies.map fun line => "COPY " ++ line ++ "\n") ++
    "RUN " ++ String.intercalate commandSeparator commands ++ "\n"

theorem printed_render {plan : Plan} (h : plan.commands ≠ []) :
    printed (Fragment.render plan none) =
      fragmentOfLines (plan.copyEntries.map fun entry =>
        printed (entry.source ++ " " ++ entry.destination)) (plan.commands.map printed) := by
  obtain ⟨first, others, hcommands⟩ := List.exists_cons_of_ne_nil h
  have hrun : '\x1b' ∉ "RUN ".toList := by decide
  have htext : Fragment.render plan none = String.join (plan.copyEntries.map Fragment.copyLine) ++
      ("RUN " ++ (String.intercalate commandSeparator plan.commands ++ "\n")) := by
    rw [Fragment.render, if_neg (by simpa using h), ← String.toList_inj]
    simp [Fragment.userLine, Fragment.runLines, commandSeparator]
  rw [htext, printed_copyLines, printed_append_of_not_mem hrun, hcommands, printed_intercalate,
    fragmentOfLines, List.map_map]
  simp only [Function.comp_def, String.append_assoc]

/-! ## Arguments -/

variable {image : String} {certificates : List String}

/-- The arguments that ask for the commands of a plan. -/
def commandsArguments (image : String) (certificates : List String) : List String :=
  ["commands", "-b", image, "--"] ++ certificates

/-- The arguments that ask for the files that a plan copies. -/
def copyEntriesArguments (certificates : List String) : List String :=
  ["copy-entries", "--"] ++ certificates

/-- The arguments that ask for the fragment of a plan. -/
def dockerfileArguments (image : String) (certificates : List String) : List String :=
  ["dockerfile", "-b", image, "--"] ++ certificates

theorem readInvocation_commands : readInvocation (commandsArguments image certificates) =
    .ok ⟨defaultConfigPath, false, .commands image certificates⟩ :=
  rfl

theorem readInvocation_copyEntries : readInvocation (copyEntriesArguments certificates) =
    .ok ⟨defaultConfigPath, false, .copyEntries Certificate.stagingDirectory certificates⟩ :=
  rfl

theorem readInvocation_dockerfile : readInvocation (dockerfileArguments image certificates) =
    .ok ⟨defaultConfigPath, false, .dockerfile ⟨some image, none, none, certificates⟩⟩ :=
  rfl

/-! ## Runs -/

variable {disk : Disk Id} {environment : Variables} {fault : FileFault}

theorem run_commands : run disk environment (commandsArguments image certificates) =
    printLines "" (Plan.of image certificates).commands := by
  have hlog : logText false (detectionLines image certificates) = "" := by
    rw [detectionLines]
    split <;> rfl
  rw [run, readInvocation_commands]
  dsimp only
  rw [hlog]
  rfl

theorem run_copyEntries (image : String) : run disk environment (copyEntriesArguments certificates) =
    printLines "" ((Plan.of image certificates).copyEntries.map fun entry =>
      entry.source ++ " " ++ entry.destination) := by
  rw [run, readInvocation_copyEntries]
  rfl

theorem stdout_run_dockerfile (hmissing : disk.kind defaultConfigPath = .error fault)
    (himage : image ≠ "") :
    (run disk environment (dockerfileArguments image certificates)).stdout =
      printed (Fragment.render (Plan.of image certificates) none) := by
  have hname : nonEmpty (some image) = some image := nonEmpty_eq_some_iff.mpr ⟨rfl, himage⟩
  have hsource : imageSource? ⟨some image, none, none, certificates⟩ {} = none := by
    simp [imageSource?, hname]
  have hchosen : chosenCertificates ⟨some image, none, none, certificates⟩ {} = certificates := by
    cases certificates <;> rfl
  have hrefusal : refusal? disk ⟨some image, none, none, certificates⟩ = none := rfl
  rw [run_of_dockerfile readInvocation_dockerfile, hrefusal, Option.getD_none,
    runDockerfile_of_ok (exhausts_of_error hmissing) (loadConfig_of_error hmissing),
    runWith_of_no_source hsource, conclude_of_image (by rw [hname]; exact hname), hchosen]
  rfl

/-! ## Public theorem -/

/-- The fragment of a plan is made of the lines that the other two commands print, and without
certificates there is nothing to print. -/
theorem stdout_dockerfile_eq_fragmentOfLines (hmissing : disk.kind defaultConfigPath = .error fault)
    (himage : image ≠ "")
    (hnames : ∀ path ∈ certificates, '\n' ∉ Certificate.lastComponent path.toList) :
    (certificates ≠ [] →
      (run disk environment (dockerfileArguments image certificates)).stdout =
        fragmentOfLines (linesOf (run disk environment (copyEntriesArguments certificates)).stdout)
          (linesOf (run disk environment (commandsArguments image certificates)).stdout)) ∧
      (certificates = [] →
        (run disk environment (dockerfileArguments image certificates)).stdout = "" ∧
          (run disk environment (copyEntriesArguments certificates)).stdout = "" ∧
          (run disk environment (commandsArguments image certificates)).stdout = "") := by
  rw [stdout_run_dockerfile hmissing himage, run_commands, run_copyEntries image]
  constructor
  · intro hne
    rw [printed_render (Certificate.commands_planOf_ne_nil image hne), linesOf_printLines,
      linesOf_printLines, List.map_map]
    · rfl
    · exact fun command hcommand => (Certificate.plainLine_of_mem_commands hnames hcommand).single
    · intro line hline
      obtain ⟨entry, hentry, rfl⟩ := List.mem_map.mp hline
      have hparts := Certificate.newline_not_mem_copyEntry hnames hentry
      simp [hparts.1, hparts.2]
  · rintro rfl
    exact ⟨printed_empty, rfl, rfl⟩

/-- A name with a sequence that is taken out, and one with the beginning of a sequence. -/
theorem stdout_dockerfile_eq_fragmentOfLines_java :
    (Workspace.empty ["w"]).disk.kind defaultConfigPath = .error .notFound ∧
      "openjdk:11" ≠ "" ∧
      (∀ path ∈ ["a\x1b[1mb.crt", "\x1b["], '\n' ∉ Certificate.lastComponent path.toList) ∧
      ["a\x1b[1mb.crt", "\x1b["] ≠ [] ∧
      (run (Workspace.empty ["w"]).disk []
          (dockerfileArguments "openjdk:11" ["a\x1b[1mb.crt", "\x1b["])).stdout =
        fragmentOfLines
          (linesOf (run (Workspace.empty ["w"]).disk []
            (copyEntriesArguments ["a\x1b[1mb.crt", "\x1b["])).stdout)
          (linesOf (run (Workspace.empty ["w"]).disk []
            (commandsArguments "openjdk:11" ["a\x1b[1mb.crt", "\x1b["])).stdout) := by
  have hnames : ∀ path ∈ ["a\x1b[1mb.crt", "\x1b["], '\n' ∉ Certificate.lastComponent path.toList := by
    decide
  have hmissing : (Workspace.empty ["w"]).disk.kind defaultConfigPath = .error .notFound := rfl
  exact ⟨hmissing, by decide, hnames, by decide,
    (stdout_dockerfile_eq_fragmentOfLines hmissing (by decide) hnames).1 (by decide)⟩

end ImageTrust.CommandLine
