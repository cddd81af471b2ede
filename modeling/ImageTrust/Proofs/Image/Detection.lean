import ImageTrust.Image
import Mathlib.Data.List.Infix

/-! # What the name of an image gives away

The words of a family are contiguous parts of the name, up to case. A longer name therefore shows all the
words of a shorter one inside it.
-/

namespace ImageTrust

/-- The place of a family in the order in which families are looked for. -/
def OsFamily.rank : OsFamily → ℕ
  | alpine => 0
  | debianUbuntu => 1
  | redHat => 2
  | unknown => 3

namespace Image

/-! ## Folding the case of a character -/

/-- Four letters outside ASCII count as small letters of ASCII. -/
def foldLetter (c : Char) : Char :=
  if c = 'İ' ∨ c = 'ı' then 'i'
  else if c = 'ſ' then 's'
  else if c = '\u212A' then 'k'
  else c

/-- A character without its case, as far as the words looked for can tell. -/
def fold (c : Char) : Char :=
  foldLetter c.toLower

theorem toLower_cases (c : Char) : c.toLower = c ∨ (c.toNat < 128 ∧ c.toLower.toNat < 128) := by
  unfold Char.toLower
  split
  · next h =>
      right
      have hupper : c.val.toNat ≤ 90 := h.2
      refine ⟨by change c.val.toNat < 128; omega, ?_⟩
      change (c.val + ('a'.val - 'A'.val)).toNat < 128
      rw [UInt32.toNat_add]
      change (c.val.toNat + 32) % 2 ^ 32 < 128
      omega
  · exact .inl rfl

/-- Lower case leaves characters outside ASCII alone and does not lead to them. -/
theorem toLower_eq_iff {c d : Char} (hd : 128 ≤ d.toNat) : c.toLower = d ↔ c = d := by
  rcases toLower_cases c with h | ⟨hc, hlower⟩
  · rw [h]
  · constructor
    · rintro rfl
      omega
    · rintro rfl
      omega

theorem foldLetter_eq_self {letter : Char} (hletter : fold letter = letter) :
    foldLetter letter = letter := by
  unfold foldLetter
  split_ifs with h₁ h₂ h₃
  · rcases h₁ with rfl | rfl
    · exact hletter
    · exact hletter
  · subst h₂
    exact hletter
  · subst h₃
    exact hletter
  · rfl

theorem sameLetter_iff {letter c : Char} (hletter : fold letter = letter) :
    sameLetter letter c = true ↔ fold c = letter := by
  simp only [sameLetter, Bool.or_eq_true, Bool.and_eq_true, decide_eq_true_eq]
  constructor
  · rintro ((((rfl | h) | ⟨rfl, rfl | rfl⟩) | ⟨rfl, rfl⟩) | ⟨rfl, rfl⟩)
    · exact hletter
    · rw [fold, h, foldLetter_eq_self hletter]
    · rfl
    · rfl
    · rfl
    · rfl
  · intro h
    unfold fold foldLetter at h
    split_ifs at h with h₁ h₂ h₃
    · rw [toLower_eq_iff (by decide), toLower_eq_iff (by decide)] at h₁
      exact .inl (.inl (.inr ⟨h.symm, h₁⟩))
    · exact .inl (.inr ⟨h.symm, (toLower_eq_iff (by decide)).mp h₂⟩)
    · exact .inr ⟨h.symm, (toLower_eq_iff (by decide)).mp h₃⟩
    · exact .inl (.inl (.inl (.inr h)))

/-! ## Words inside a name -/

/-- A word in lower case is a part of a name, once the case of every character is folded. -/
def Shows (image word : String) : Prop :=
  ∃ before part after, image.toList = before ++ part ++ after ∧ part.map fold = word.toList

def ShowsOneOf (image : String) (words : List String) : Prop :=
  ∃ word ∈ words, Shows image word

theorem shows_iff_isInfix {image word : String} :
    Shows image word ↔ word.toList <:+: image.toList.map fold := by
  constructor
  · rintro ⟨before, part, after, himage, hpart⟩
    refine ⟨before.map fold, after.map fold, ?_⟩
    rw [← hpart, himage, List.map_append, List.map_append]
  · rintro ⟨before, after, h⟩
    obtain ⟨front, after', himage, hfront, -⟩ := List.map_eq_append_iff.mp h.symm
    obtain ⟨before', part, rfl, -, hpart⟩ := List.map_eq_append_iff.mp hfront
    exact ⟨before', part, after', himage, hpart⟩

theorem startsWith_iff {word cs : List Char} (hword : ∀ c ∈ word, fold c = c) :
    startsWith word cs = true ↔ word <+: cs.map fold := by
  induction word generalizing cs with
  | nil => simp [startsWith]
  | cons letter word ih =>
      cases cs with
      | nil => simp [startsWith]
      | cons c cs =>
          rw [List.forall_mem_cons] at hword
          rw [startsWith, Bool.and_eq_true, sameLetter_iff hword.1, ih hword.2, List.map_cons,
            List.cons_prefix_cons]
          exact and_congr_left fun _ => eq_comm

theorem occurs_iff {word cs : List Char} (hword : ∀ c ∈ word, fold c = c) :
    occurs word cs = true ↔ word <:+: cs.map fold := by
  induction cs with
  | nil =>
      rw [occurs, Bool.or_eq_true, startsWith_iff hword]
      simp
  | cons c cs ih =>
      rw [occurs, Bool.or_eq_true, startsWith_iff hword, ih, List.map_cons, List.infix_cons_iff]

theorem mentions_iff {image : String} {words : List String}
    (hwords : ∀ word ∈ words, word.toList.map fold = word.toList) :
    mentions image words = true ↔ ShowsOneOf image words := by
  rw [mentions, List.any_eq_true, ShowsOneOf]
  apply exists_congr
  intro word
  apply and_congr_right
  intro hmem
  have hword : ∀ c ∈ word.toList, fold c = c :=
    List.map_inj_left.mp ((hwords word hmem).trans (List.map_id word.toList).symm)
  rw [occurs_iff hword, shows_iff_isInfix]

/-- What a name shows, a longer name shows as well. -/
theorem ShowsOneOf.append {image : String} {words : List String} (h : ShowsOneOf image words)
    (front back : String) : ShowsOneOf (front ++ image ++ back) words := by
  obtain ⟨word, hmem, before, part, after, himage, hpart⟩ := h
  refine ⟨word, hmem, front.toList ++ before, part, after ++ back.toList, ?_, hpart⟩
  simp [himage]

/-! ## Families -/

/-- The family that a name gives away: the first one in order of which it shows a word. -/
inductive Classified (image : String) : OsFamily → Prop
  | alpine (h : ShowsOneOf image ["alpine"]) : Classified image .alpine
  | debianUbuntu (hfirst : ¬ ShowsOneOf image ["alpine"])
      (h : ShowsOneOf image ["debian", "ubuntu"]) : Classified image .debianUbuntu
  | redHat (hfirst : ¬ ShowsOneOf image ["alpine"])
      (hsecond : ¬ ShowsOneOf image ["debian", "ubuntu"])
      (h : ShowsOneOf image ["rhel", "ubi", "centos", "fedora"]) : Classified image .redHat
  | unknown (hfirst : ¬ ShowsOneOf image ["alpine"])
      (hsecond : ¬ ShowsOneOf image ["debian", "ubuntu"])
      (hthird : ¬ ShowsOneOf image ["rhel", "ubi", "centos", "fedora"]) : Classified image .unknown

theorem mentions_words_iff (image : String) (family : OsFamily) :
    mentions image family.words = true ↔ ShowsOneOf image family.words := by
  apply mentions_iff
  cases family <;> decide

theorem classified_osFamily (image : String) : Classified image (osFamily image) := by
  have hiff := mentions_words_iff image
  rw [osFamily, OsFamily.all]
  by_cases halpine : mentions image OsFamily.alpine.words = true
  · rw [List.find?_cons_of_pos (by exact halpine)]
    exact .alpine ((hiff _).mp halpine)
  rw [List.find?_cons_of_neg (by exact halpine)]
  rw [hiff] at halpine
  by_cases hdebian : mentions image OsFamily.debianUbuntu.words = true
  · rw [List.find?_cons_of_pos (by exact hdebian)]
    exact .debianUbuntu halpine ((hiff _).mp hdebian)
  rw [List.find?_cons_of_neg (by exact hdebian)]
  rw [hiff] at hdebian
  by_cases hredHat : mentions image OsFamily.redHat.words = true
  · rw [List.find?_cons_of_pos (by exact hredHat)]
    exact .redHat halpine hdebian ((hiff _).mp hredHat)
  rw [List.find?_cons_of_neg (by exact hredHat)]
  rw [hiff] at hredHat
  exact .unknown halpine hdebian hredHat

theorem Classified.eq_osFamily {image : String} {family : OsFamily} (h : Classified image family) :
    family = osFamily image := by
  have hclassified := classified_osFamily image
  generalize osFamily image = other at hclassified
  cases h <;> cases hclassified <;> trivial

theorem classified_iff {image : String} {family : OsFamily} :
    Classified image family ↔ osFamily image = family := by
  constructor
  · intro h
    exact h.eq_osFamily.symm
  · rintro rfl
    exact classified_osFamily image

/-- A name that shows a word of a family gives that family away or an earlier one. -/
theorem rank_osFamily_le {image : String} {family : OsFamily} (h : ShowsOneOf image family.words) :
    (osFamily image).rank ≤ family.rank := by
  have hclassified := classified_osFamily image
  generalize osFamily image = other at hclassified
  cases family with
  | alpine => cases hclassified <;> trivial
  | debianUbuntu => cases hclassified <;> trivial
  | redHat => cases hclassified <;> trivial
  | unknown => cases hclassified <;> trivial

theorem rank_osFamily_append_le (front image back : String) :
    (osFamily (front ++ image ++ back)).rank ≤ (osFamily image).rank := by
  have hclassified := classified_osFamily image
  generalize osFamily image = family at hclassified
  cases hclassified with
  | alpine h => exact @rank_osFamily_le _ .alpine (h.append front back)
  | debianUbuntu _ h => exact @rank_osFamily_le _ .debianUbuntu (h.append front back)
  | redHat _ _ h => exact @rank_osFamily_le _ .redHat (h.append front back)
  | unknown => cases osFamily (front ++ image ++ back) <;> trivial

/-! ## Java -/

theorem runtime_eq_java_iff {image : String} :
    runtime image = .java ↔ ShowsOneOf image ["java", "jdk", "jre", "eclipse-temurin"] := by
  have hmentions : mentions image Runtime.javaWords = true ↔ ShowsOneOf image Runtime.javaWords :=
    mentions_iff (by decide)
  have hruntime : runtime image = .java ↔ ShowsOneOf image Runtime.javaWords := by
    rw [← hmentions, runtime]
    split <;> simp_all
  rw [hruntime]
  constructor
  · rintro ⟨word, hmem, h⟩
    by_cases hopen : word = "openjdk"
    · -- the longer word shows the shorter one
      subst hopen
      refine ⟨"jdk", by decide, ?_⟩
      rw [shows_iff_isInfix] at h ⊢
      exact List.IsInfix.trans ⟨"open".toList, [], rfl⟩ h
    · exact ⟨word, by simpa [Runtime.javaWords, hopen] using hmem, h⟩
  · rintro ⟨word, hmem, h⟩
    have hsubset : ["java", "jdk", "jre", "eclipse-temurin"] ⊆ Runtime.javaWords := by decide
    exact ⟨word, hsubset hmem, h⟩

/-! ## Names up to case -/

/-- Two names that differ in the case of letters of ASCII only. -/
def SameButCase (x y : String) : Prop :=
  x.toList.map Char.toLower = y.toList.map Char.toLower

instance (x y : String) : Decidable (SameButCase x y) :=
  inferInstanceAs (Decidable (_ = _))

theorem SameButCase.showsOneOf_iff {x y : String} (h : SameButCase x y) (words : List String) :
    ShowsOneOf x words ↔ ShowsOneOf y words := by
  have hfold : x.toList.map fold = y.toList.map fold := by
    have hmap := congrArg (List.map foldLetter) h
    rwa [List.map_map, List.map_map] at hmap
  simp only [ShowsOneOf, shows_iff_isInfix, hfold]

theorem SameButCase.runtime_eq {x y : String} (h : SameButCase x y) : runtime x = runtime y := by
  have hjava : runtime x = .java ↔ runtime y = .java := by
    rw [runtime_eq_java_iff, runtime_eq_java_iff, h.showsOneOf_iff]
  cases hx : runtime x <;> cases hy : runtime y <;> simp_all

theorem SameButCase.osFamily_eq {x y : String} (h : SameButCase x y) : osFamily x = osFamily y := by
  have hclassified := classified_osFamily y
  generalize osFamily y = family at hclassified
  rw [← classified_iff]
  cases hclassified with
  | alpine hy => exact .alpine ((h.showsOneOf_iff _).mpr hy)
  | debianUbuntu h₁ hy =>
      rw [← h.showsOneOf_iff] at h₁ hy
      exact .debianUbuntu h₁ hy
  | redHat h₁ h₂ hy =>
      rw [← h.showsOneOf_iff] at h₁ h₂ hy
      exact .redHat h₁ h₂ hy
  | unknown h₁ h₂ h₃ =>
      rw [← h.showsOneOf_iff] at h₁ h₂ h₃
      exact .unknown h₁ h₂ h₃

/-! ## Public theorem -/

/-- The runtime and the family are those that the words inside the name give away, case folded. So a
longer name loses neither Java nor a family, and the case of ASCII letters does not count. -/
theorem detection_spec :
    (∀ image : String,
      (runtime image = .java ↔ ShowsOneOf image ["java", "jdk", "jre", "eclipse-temurin"]) ∧
        ∀ family, osFamily image = family ↔ Classified image family) ∧
    (∀ front image back : String,
      (runtime image = .java → runtime (front ++ image ++ back) = .java) ∧
        (osFamily (front ++ image ++ back)).rank ≤ (osFamily image).rank) ∧
    ∀ x y : String, SameButCase x y → runtime x = runtime y ∧ osFamily x = osFamily y := by
  refine ⟨?_, ?_, ?_⟩
  · intro image
    exact ⟨runtime_eq_java_iff, fun family => classified_iff.symm⟩
  · intro front image back
    refine ⟨?_, rank_osFamily_append_le front image back⟩
    rw [runtime_eq_java_iff, runtime_eq_java_iff]
    intro h
    exact h.append front back
  · intro x y h
    exact ⟨h.runtime_eq, h.osFamily_eq⟩

/-- A word that straddles the seam to a tag gives an earlier family away, and the dotless and the dotted
i count as an i. -/
theorem detection_spec_straddling :
    runtime "OPENJDK" = .java ∧ runtime ("hub/" ++ "OPENJDK" ++ "-alpine") = .java ∧
      (osFamily ("alp" ++ "ine/ubı" ++ ":8")).rank ≤ (osFamily "ine/ubı").rank ∧
      SameButCase "Fedora:J\u0130RE" "fEDORA:j\u0130re" ∧
      osFamily "Fedora:J\u0130RE" = osFamily "fEDORA:j\u0130re" := by
  have hjava : runtime "OPENJDK" = .java := by decide +kernel
  have hsame : SameButCase "Fedora:J\u0130RE" "fEDORA:j\u0130re" := by decide
  obtain ⟨-, hlonger, hcase⟩ := detection_spec
  exact ⟨hjava, (hlonger "hub/" "OPENJDK" "-alpine").1 hjava, (hlonger "alp" "ine/ubı" ":8").2, hsame,
    (hcase _ _ hsame).2⟩

end Image

end ImageTrust
