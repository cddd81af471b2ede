import ImageTrust.Proofs.Yaml.Quoting
import ImageTrust.Yaml.TokenStream

/-! # The tokens of a mapping in braces

A mapping in braces on one line, with keys and texts in double quotes, is cut into the tokens it is
written of, whatever its texts are.
-/

namespace ImageTrust.Yaml

/-! ## Writing -/

/-- The value of an entry. -/
inductive FlowValue
  | null
  | text (text : String)
  | list (texts : List String)
  deriving DecidableEq, Repr

/-- Parts with a comma and a space between them. -/
def commaSeparated (parts : List (List Char)) : List Char :=
  [',', ' '].intercalate parts

def FlowValue.source : FlowValue → List Char
  | null => ['n', 'u', 'l', 'l']
  | .text t => quoted t
  | list texts => '[' :: commaSeparated (texts.map quoted) ++ [']']

def entrySource (entry : String × FlowValue) : List Char :=
  quoted entry.1 ++ ':' :: ' ' :: entry.2.source

/-- A key that is still remembered at its colon. -/
def IsShortKey (name : String) : Prop :=
  (quoted name).length ≤ 1024

/-- A mapping on one line. -/
def flowMapping (entries : List (String × FlowValue)) : List Char :=
  '\x7b' :: commaSeparated (entries.map entrySource) ++ ['\x7d']

/-! ## Tokens -/

def entriesBetween (parts : List (List Token)) : List Token :=
  [.flowEntry].intercalate parts

def textToken (text : String) : Token :=
  .scalar text false

def FlowValue.tokens : FlowValue → List Token
  | null => [.scalar "null" true]
  | .text t => [textToken t]
  | list texts =>
    .flowSequenceStart :: entriesBetween (texts.map fun text => [textToken text]) ++ [.flowSequenceEnd]

def entryTokens (entry : String × FlowValue) : List Token :=
  .key :: textToken entry.1 :: .value :: entry.2.tokens

def flowMappingTokens (entries : List (String × FlowValue)) : List Token :=
  .flowMappingStart :: entriesBetween (entries.map entryTokens) ++ [.flowMappingEnd]

theorem intercalate_cons {α : Type} (separator part : List α) (parts : List (List α)) :
    separator.intercalate (part :: parts) = part ++ parts.flatMap (separator ++ ·) := by
  induction parts generalizing part with
  | nil => simp [List.intercalate]
  | cons next parts ih =>
      rw [List.intercalate_cons_cons, ih, List.flatMap_cons, List.append_assoc, List.append_assoc]

theorem commaSeparated_map_cons {α : Type} (f : α → List Char) (a : α) (more : List α) :
    commaSeparated ((a :: more).map f) = f a ++ more.flatMap fun b => ',' :: ' ' :: f b := by
  rw [commaSeparated, List.map_cons, intercalate_cons, List.flatMap_map]
  rfl

theorem entriesBetween_map_cons {α : Type} (f : α → List Token) (a : α) (more : List α) :
    entriesBetween ((a :: more).map f) = f a ++ more.flatMap fun b => .flowEntry :: f b := by
  rw [entriesBetween, List.map_cons, intercalate_cons, List.flatMap_map]
  rfl

/-! ## What is written -/

theorem of_mem_commaSeparated {p : Char → Prop} (hcomma : p ',') (hspace : p ' ')
    {parts : List (List Char)} (h : ∀ part ∈ parts, ∀ c ∈ part, p c) :
    ∀ c ∈ commaSeparated parts, p c := by
  cases parts with
  | nil => exact List.forall_mem_nil p
  | cons part parts =>
      intro c hc
      rw [commaSeparated, intercalate_cons] at hc
      simp only [List.mem_append, List.mem_flatMap, List.mem_cons, List.not_mem_nil, or_false] at hc
      rcases hc with hc | ⟨other, hother, (rfl | rfl) | hc⟩
      · exact h part List.mem_cons_self c hc
      · exact hcomma
      · exact hspace
      · exact h other (List.mem_cons_of_mem _ hother) c hc

theorem of_mem_source {v : FlowValue} {c : Char} (h : c ∈ v.source) : isPrintableAscii c ∧ c ≠ '$' := by
  cases v with
  | null =>
      simp only [FlowValue.source, List.mem_cons, List.not_mem_nil, or_false] at h
      rcases h with rfl | rfl | rfl | rfl <;> decide
  | text text => exact of_mem_quoted h
  | list texts =>
      simp only [FlowValue.source, List.cons_append, List.mem_cons, List.mem_append, List.not_mem_nil,
        or_false] at h
      rcases h with rfl | h | rfl
      · decide
      · refine of_mem_commaSeparated (p := fun c => isPrintableAscii c ∧ c ≠ '$') (by decide) (by decide)
          ?_ c h
        intro part hpart d hd
        obtain ⟨text, -, rfl⟩ := List.mem_map.mp hpart
        exact of_mem_quoted hd
      · decide

/-- What is written is printable and holds no dollar sign. -/
theorem of_mem_flowMapping {entries : List (String × FlowValue)} {c : Char}
    (h : c ∈ flowMapping entries) : isPrintableAscii c ∧ c ≠ '$' := by
  simp only [flowMapping, List.cons_append, List.mem_cons, List.mem_append, List.not_mem_nil,
    or_false] at h
  rcases h with rfl | h | rfl
  · decide
  · refine of_mem_commaSeparated (p := fun c => isPrintableAscii c ∧ c ≠ '$') (by decide) (by decide)
      ?_ c h
    intro part hpart d hd
    obtain ⟨entry, -, rfl⟩ := List.mem_map.mp hpart
    simp only [entrySource, List.mem_append, List.mem_cons] at hd
    rcases hd with hd | rfl | rfl | hd
    · exact of_mem_quoted hd
    · decide
    · decide
    · exact of_mem_source hd
  · decide

/-! ## Places -/

theorem Mark.after_of_isBreak {c : Char} (hc : isBreak c = false) (m : Mark) (next : Option Char) :
    (m.after c next).line = m.line ∧ (m.after c next).index = m.index + 1 := by
  unfold Mark.after
  rw [hc, Bool.false_and, if_neg (by decide)]
  split <;> exact ⟨rfl, rfl⟩

/-- Within a line the places are counted. -/
theorem Mark.advance_append {text : List Char} (h : ∀ c ∈ text, isBreak c = false) (m : Mark)
    (rest : List Char) : (m.advance text.length (text ++ rest)).line = m.line ∧
      (m.advance text.length (text ++ rest)).index = m.index + text.length := by
  induction text generalizing m with
  | nil => exact ⟨rfl, rfl⟩
  | cons c text ih =>
      rw [List.cons_append, List.length_cons, Mark.advance]
      obtain ⟨hline, hindex⟩ := Mark.after_of_isBreak (h c List.mem_cons_self) m (text ++ rest).head?
      obtain ⟨ihline, ihindex⟩ := ih (fun d hd => h d (List.mem_cons_of_mem _ hd))
        (m.after c (text ++ rest).head?)
      exact ⟨ihline.trans hline, by rw [ihindex, hindex]; omega⟩

namespace Scan

/-! ## Runs -/

/-- A state comes to another one in no more steps than it goes on by characters. -/
def Reaches (s t : Scan) : Prop :=
  ∃ steps, steps + t.rest.length ≤ s.rest.length ∧ ∀ bound, s.run (steps + bound) = t.run bound

theorem Reaches.trans {s t u : Scan} (hst : s.Reaches t) (htu : t.Reaches u) : s.Reaches u := by
  obtain ⟨m, hm, hst⟩ := hst
  obtain ⟨n, hn, htu⟩ := htu
  refine ⟨m + n, by omega, fun bound => ?_⟩
  rw [Nat.add_assoc, hst, htu]

theorem Reaches.of_next {s t : Scan} (hfinished : s.finished = false) (h : s.next = .ok t)
    (hlength : t.rest.length < s.rest.length) : s.Reaches t := by
  refine ⟨1, by omega, fun bound => ?_⟩
  rw [Nat.add_comm, run, hfinished, h]
  rfl

/-! ## States -/

/-- A state without block collections and without a token that has to be a key. -/
structure At (s : Scan) (level : Nat) (tokens : List Token) (allowed : Bool) (rest : List Char) :
    Prop where
  flow : s.flow = level
  /-- The tokens so far, the last one first. -/
  tokens : s.tokens = tokens
  allowed : s.keyAllowed = allowed
  /-- The text at the next token. -/
  rest : s.rest.dropWhile (· = ' ') = rest
  loose : ∀ k ∈ s.keys, k.2.required = false
  indent : s.indent = -1
  finished : s.finished = false

/-- A text that starts with a token in printable characters, or ends. -/
def StartsToken (cs : List Char) : Prop :=
  ∀ c, cs.head? = some c → isPrintableAscii c ∧ c ≠ ' ' ∧ c ≠ '#'

theorem startsToken_cons {c : Char} (h : isPrintableAscii c ∧ c ≠ ' ' ∧ c ≠ '#') (cs : List Char) :
    StartsToken (c :: cs) := by
  intro d hd
  cases hd
  exact h

theorem StartsToken.dropWhile_eq {cs : List Char} (h : StartsToken cs) :
    cs.dropWhile (· = ' ') = cs := by
  cases cs with
  | nil => rfl
  | cons c cs => exact List.dropWhile_cons_of_neg (by simpa using (h c rfl).2.1)

theorem StartsToken.lineBreak?_eq {cs : List Char} (h : StartsToken cs) : lineBreak? cs = none := by
  cases cs with
  | nil => rfl
  | cons c cs => exact lineBreak?_of_isBreak (isBreak_of_isPrintableAscii (h c rfl).1) cs

/-- The state at the next token. -/
def ready (s : Scan) (rest : List Char) : Scan :=
  { s.goTo rest with keys := s.keys.filter fun (_, k) => !(s.goTo rest).isStale k }

variable {s : Scan} {level : Nat} {tokens : List Token} {allowed : Bool} {rest : List Char}

theorem unwind_of_indent (h : s.indent = -1) {column : Int} (hcolumn : -1 ≤ column) :
    s.unwind column = s := by
  have hgo : unwind.go s column s.outer s.indent s.tokens = s := by
    unfold unwind.go
    rw [if_neg (by omega)]
  unfold unwind
  rw [hgo, ite_self]

/-! ## The kind of the next token -/

theorem token_of_quote {cs : List Char} (h : s.rest = '"' :: cs) : s.token = s.node readDouble := by
  simp [token, h]

theorem token_of_colon {cs : List Char} (h : s.rest = ':' :: cs) (hflow : s.flow ≠ 0) :
    s.token = s.value := by
  simp [token, h, hflow]

theorem token_of_comma {cs : List Char} (h : s.rest = ',' :: cs) : s.token = s.flowEntry := by
  simp [token, h]

theorem token_of_openBracket {cs : List Char} (h : s.rest = '[' :: cs) :
    s.token = s.flowStart .flowSequenceStart := by
  simp [token, h]

theorem token_of_closeBracket {cs : List Char} (h : s.rest = ']' :: cs) :
    s.token = s.flowEnd .flowSequenceEnd := by
  simp [token, h]

theorem token_of_openBrace {cs : List Char} (h : s.rest = '\x7b' :: cs) :
    s.token = s.flowStart .flowMappingStart := by
  simp [token, h]

theorem token_of_closeBrace {cs : List Char} (h : s.rest = '\x7d' :: cs) :
    s.token = s.flowEnd .flowMappingEnd := by
  simp [token, h]

theorem token_of_letter {cs : List Char} (h : s.rest = 'n' :: cs) : s.token = s.plain := by
  simp [token, h, startsPlain, isIndicator, show isGap 'n' = false by decide]

theorem value_of_key {k : PossibleKey} (hlookup : s.keys.lookup s.flow = some k) (hflow : s.flow ≠ 0) :
    s.value = .ok { ({ s with keys := s.keys.filter fun (level, _) => level ≠ s.flow }.insert
      k.position .key).take 1 .value with keyAllowed := false } := by
  unfold value
  rw [hlookup]
  dsimp only
  rw [if_neg (by simp [insert, hflow])]

namespace At

theorem skipToToken_eq (h : s.At level tokens allowed rest) (hstarts : StartsToken rest) :
    s.skipToToken = s.goTo rest := by
  have hmark : s.rest.head? ≠ some '\uFEFF' := by
    intro hhead
    obtain ⟨more, hmore⟩ := List.head?_eq_some_iff.mp hhead
    have hrest := h.rest
    rw [hmore, List.dropWhile_cons_of_neg (by decide)] at hrest
    have hprintable := (hstarts '\uFEFF' (by rw [← hrest]; rfl)).1
    revert hprintable
    decide
  have hcomment : rest.head? ≠ some '#' := fun hhead => (hstarts '#' hhead).2.2 rfl
  have hgap : skipGap (s.rest.length + 1) s.rest = (rest, false) := by
    rw [skipGap, h.rest, if_neg hcomment, hstarts.lineBreak?_eq]
  unfold skipToToken
  dsimp only
  rw [if_neg (by simp [hmark]), hgap]
  simp [goTo]

/-- What comes before the next token changes nothing but the place. -/
theorem next_eq (h : s.At level tokens allowed rest) (hstarts : StartsToken rest) :
    s.next = (s.ready rest).token := by
  have hloose : (s.goTo rest).keys.any (fun (_, k) => (s.goTo rest).isStale k && k.required) = false := by
    rw [List.any_eq_false]
    intro k hk
    simp [h.loose k hk]
  have hdrop : (s.goTo rest).dropStaleKeys = .ok (s.ready rest) := by
    unfold dropStaleKeys
    rw [hloose, if_neg (by decide)]
    rfl
  have hindent : (s.ready rest).indent = -1 := h.indent
  unfold next
  rw [h.skipToToken_eq hstarts, hdrop]
  change ((s.ready rest).unwind _).token = _
  rw [unwind_of_indent hindent (by omega)]

theorem ready (h : s.At level tokens allowed rest) (hstarts : StartsToken rest) :
    (s.ready rest).At level tokens allowed rest where
  flow := h.flow
  tokens := h.tokens
  allowed := h.allowed
  rest := hstarts.dropWhile_eq
  loose k hk := h.loose k (List.mem_filter.mp hk).1
  indent := h.indent
  finished := h.finished

theorem length_rest_le (h : s.At level tokens allowed rest) : rest.length ≤ s.rest.length := by
  rw [← h.rest]
  exact (List.dropWhile_suffix _).length_le

/-- A token is read from the state at it. -/
theorem reaches_of_token (h : s.At level tokens allowed rest) (hstarts : StartsToken rest) {t : Scan}
    (ht : (s.ready rest).token = .ok t) (hlength : t.rest.length < rest.length) : s.Reaches t :=
  .of_next h.finished ((h.next_eq hstarts).trans ht) (Nat.lt_of_lt_of_le hlength h.length_rest_le)

/-! ## Possible keys -/

theorem dropKey_eq (h : s.At level tokens allowed rest) :
    s.dropKey = .ok { s with keys := s.keys.filter fun (level, _) => level ≠ s.flow } := by
  have hloose : s.keys.any (fun (level, k) => level = s.flow && k.required) = false := by
    rw [List.any_eq_false]
    intro k hk
    simp [h.loose k hk]
  unfold dropKey
  rw [hloose, if_neg (by decide)]

theorem withKeys (h : s.At level tokens allowed rest) {keys : List (Nat × PossibleKey)}
    (hkeys : ∀ k ∈ keys, k.2.required = false) : { s with keys }.At level tokens allowed rest :=
  { h with loose := hkeys }

theorem dropKey (h : s.At level tokens allowed rest) :
    ∃ t, s.dropKey = .ok t ∧ t.At level tokens allowed rest ∧ t.rest = s.rest :=
  ⟨_, h.dropKey_eq, h.withKeys fun k hk => h.loose k (List.mem_filter.mp hk).1, rfl⟩

theorem markKey (h : s.At level tokens allowed rest) :
    ∃ t, s.markKey = .ok t ∧ t.At level tokens allowed rest ∧ t.rest = s.rest ∧ t.mark = s.mark ∧
      (allowed = true → t.keys.lookup level = some ⟨tokens.length, false, s.mark⟩) := by
  cases hallowed : allowed with
  | false =>
      subst hallowed
      refine ⟨s, ?_, h, rfl, rfl, fun hfalse => by cases hfalse⟩
      unfold Scan.markKey
      rw [h.allowed, if_neg (by decide)]
  | true =>
      subst hallowed
      have hrequired : (s.flow = 0 && s.indent = s.mark.column : Bool) = false := by
        have hcolumn : s.indent ≠ s.mark.column := by rw [h.indent]; omega
        simp [hcolumn]
      have hmark : s.markKey = .ok { s with keys :=
          (s.flow, ⟨s.tokens.length, false, s.mark⟩) :: s.keys.filter fun (level, _) => level ≠ s.flow } := by
        unfold Scan.markKey
        rw [if_pos h.allowed, h.dropKey_eq, ← hrequired]
        rfl
      refine ⟨_, hmark, h.withKeys ?_, rfl, rfl, fun _ => ?_⟩
      · intro k hk
        rcases List.mem_cons.mp hk with rfl | hk
        · rfl
        · exact h.loose k (List.mem_filter.mp hk).1
      · rw [h.flow, h.tokens, List.lookup_cons_self]

/-! ## Single tokens -/

/-- A state after a token and the text up to the next one. -/
theorem after (h : s.At level tokens allowed rest) (rest' : List Char) (t : Token) (level' : Nat)
    (allowed' : Bool) :
    { (s.goTo rest').add t with keyAllowed := allowed', flow := level' }.At level' (t :: tokens) allowed'
      (rest'.dropWhile (· = ' ')) where
  flow := rfl
  tokens := by rw [← h.tokens]; rfl
  allowed := rfl
  rest := rfl
  loose := h.loose
  indent := h.indent
  finished := h.finished

theorem after_eq (h : s.At level tokens allowed rest) (rest' : List Char) (t : Token) (allowed' : Bool) :
    { (s.goTo rest').add t with keyAllowed := allowed' }.At level (t :: tokens) allowed'
      (rest'.dropWhile (· = ' ')) := by
  have hflow : s.flow = level := h.flow
  subst hflow
  exact h.after rest' t s.flow allowed'

variable {c : Char} {cs : List Char}

theorem flowStart (h : s.At level tokens allowed (c :: cs)) (hc : isPrintableAscii c ∧ c ≠ ' ' ∧ c ≠ '#')
    {t : Token} (ht : ∀ s : Scan, s.rest = c :: cs → s.token = s.flowStart t) :
    ∃ u, s.Reaches u ∧ u.At (level + 1) (t :: tokens) true (cs.dropWhile (· = ' ')) := by
  have hstarts := startsToken_cons hc cs
  obtain ⟨u, hu, hat, hurest, -⟩ := (h.ready hstarts).markKey
  have hcs : u.rest.drop 1 = cs := by rw [hurest]; rfl
  have htoken : (s.ready (c :: cs)).token =
      .ok { u.take 1 t with keyAllowed := true, flow := u.flow + 1 } := by
    rw [ht _ rfl, Scan.flowStart, hu]
    rfl
  refine ⟨_, h.reaches_of_token hstarts htoken ?_, ?_⟩
  · change (u.rest.drop 1).length < _
    rw [hcs]
    exact Nat.lt_succ_self _
  · rw [← hat.flow, ← hcs]
    exact hat.after (u.rest.drop 1) t (u.flow + 1) true

theorem flowEnd (h : s.At (level + 1) tokens allowed (c :: cs))
    (hc : isPrintableAscii c ∧ c ≠ ' ' ∧ c ≠ '#')
    {t : Token} (ht : ∀ s : Scan, s.rest = c :: cs → s.token = s.flowEnd t) :
    ∃ u, s.Reaches u ∧ u.At level (t :: tokens) false (cs.dropWhile (· = ' ')) := by
  have hstarts := startsToken_cons hc cs
  obtain ⟨u, hu, hat, hurest⟩ := (h.ready hstarts).dropKey
  have hcs : u.rest.drop 1 = cs := by rw [hurest]; rfl
  have hlevel : level = u.flow - 1 := by rw [hat.flow]; omega
  have htoken : (s.ready (c :: cs)).token =
      .ok { u.take 1 t with keyAllowed := false, flow := u.flow - 1 } := by
    rw [ht _ rfl, Scan.flowEnd, hu]
    rfl
  refine ⟨_, h.reaches_of_token hstarts htoken ?_, ?_⟩
  · change (u.rest.drop 1).length < _
    rw [hcs]
    exact Nat.lt_succ_self _
  · rw [hlevel, ← hcs]
    exact hat.after (u.rest.drop 1) t (u.flow - 1) false

theorem flowEntry (h : s.At level tokens allowed (',' :: cs)) :
    ∃ u, s.Reaches u ∧ u.At level (.flowEntry :: tokens) true (cs.dropWhile (· = ' ')) := by
  have hstarts := startsToken_cons (c := ',') (by decide) cs
  obtain ⟨u, hu, hat, hurest⟩ := (h.ready hstarts).dropKey
  have hcs : u.rest.drop 1 = cs := by rw [hurest]; rfl
  have htoken : (s.ready (',' :: cs)).token = .ok { u.take 1 .flowEntry with keyAllowed := true } := by
    rw [token_of_comma rfl, Scan.flowEntry, hu]
    rfl
  refine ⟨_, h.reaches_of_token hstarts htoken ?_, ?_⟩
  · change (u.rest.drop 1).length < _
    rw [hcs]
    exact Nat.lt_succ_self _
  · rw [← hcs]
    exact hat.after_eq (u.rest.drop 1) .flowEntry true

/-- A text in double quotes. Where a key may stand it is remembered as one. -/
theorem text {text : String} (h : s.At level tokens allowed (quoted text ++ cs)) :
    ∃ u, s.Reaches u ∧ u.At level (textToken text :: tokens) false (cs.dropWhile (· = ' ')) ∧
      u.rest = cs ∧ (allowed = true → ∃ k, u.keys.lookup level = some k ∧
        k.position = tokens.length ∧ u.mark.line = k.mark.line ∧
        u.mark.index = k.mark.index + (quoted text).length) := by
  have hstarts : StartsToken (quoted text ++ cs) :=
    startsToken_cons (c := '"') (by decide) _
  obtain ⟨u, hu, hat, hurest, humark, hukey⟩ := (h.ready hstarts).markKey
  have hrest : u.rest = quoted text ++ cs := hurest
  have hread : readDouble (u.rest.drop 1) = .ok (textToken text, cs) := by
    have hinside : u.rest.drop 1 = quoteChars text.toList ++ '"' :: cs := by
      rw [hrest, quoted]
      simp
    have hlength : text.toList.length < (u.rest.drop 1).length + 1 := by
      have := length_le_length_quoteChars text.toList
      rw [hinside, List.length_append]
      omega
    rw [readDouble, hinside, doubleQuoted_quoteChars (by rw [← hinside]; exact hlength)]
    simp [textToken, Except.map]
  have htoken : (s.ready (quoted text ++ cs)).token =
      .ok { (u.goTo cs).add (textToken text) with keyAllowed := false } := by
    have hquote : (s.ready (quoted text ++ cs)).rest = '"' :: (quoteChars text.toList ++ ['"'] ++ cs) := rfl
    rw [token_of_quote hquote, node, hu]
    change (readDouble (u.rest.drop 1)).bind _ = _
    rw [hread]
    rfl
  refine ⟨_, h.reaches_of_token hstarts htoken ?_, hat.after_eq cs (textToken text) false, rfl,
    fun hallowed => ⟨_, hukey hallowed, rfl, ?_⟩⟩
  · change cs.length < _
    simp only [quoted, List.length_append, List.length_cons]
    omega
  · have hmark : (u.goTo cs).mark = u.mark.advance (quoted text).length (quoted text ++ cs) := by
      rw [goTo, hrest, List.length_append, Nat.add_sub_cancel]
    change (u.goTo cs).mark.line = _ ∧ (u.goTo cs).mark.index = _
    rw [hmark, humark]
    exact Mark.advance_append
      (fun d hd => isBreak_of_isPrintableAscii (of_mem_quoted hd).1) (s.ready _).mark cs

/-- A key with the colon after it. -/
theorem key {name : String} (hname : IsShortKey name)
    (h : s.At (level + 1) tokens true (quoted name ++ ':' :: cs)) :
    ∃ u, s.Reaches u ∧ u.At (level + 1) (.value :: textToken name :: .key :: tokens) false
      (cs.dropWhile (· = ' ')) := by
  obtain ⟨u, hreaches, hat, hrest, hkey⟩ := h.text
  obtain ⟨k, hlookup, hposition, hline, hindex⟩ := hkey rfl
  have hstarts := startsToken_cons (c := ':') (by decide) cs
  rw [hstarts.dropWhile_eq] at hat
  have hready := hat.ready hstarts
  -- nothing lies between the key and its colon, so the key is where it was and still recent
  have hmark : (u.ready (':' :: cs)).mark = u.mark := by
    change u.mark.advance (u.rest.length - (':' :: cs).length) u.rest = u.mark
    rw [hrest, Nat.sub_self]
    rfl
  have hfresh : (u.goTo (':' :: cs)).isStale k = false := by
    have hmark' : (u.goTo (':' :: cs)).mark = u.mark := hmark
    unfold isStale
    have hlength : (quoted name).length ≤ 1024 := hname
    rw [hmark', hline, hindex]
    simp
    omega
  have hlookup' : (u.ready (':' :: cs)).keys.lookup (level + 1) = some k := by
    obtain ⟨before, after, hkeys, hbefore⟩ := List.lookup_eq_some_iff.mp hlookup
    refine List.lookup_eq_some_iff.mpr ⟨before.filter fun k => !(u.goTo (':' :: cs)).isStale k.2,
      after.filter fun k => !(u.goTo (':' :: cs)).isStale k.2, ?_,
      fun p hp => hbefore p (List.mem_filter.mp hp).1⟩
    change u.keys.filter _ = _
    rw [hkeys, List.filter_append, List.filter_cons_of_pos (by simp [hfresh])]
  have hflow : (u.ready (':' :: cs)).flow ≠ 0 := by rw [hready.flow]; omega
  rw [← hready.flow] at hlookup'
  have htoken := (token_of_colon (s := u.ready (':' :: cs)) rfl hflow).trans (value_of_key hlookup' hflow)
  have htokens : (u.ready (':' :: cs)).tokens.insertIdx
      ((u.ready (':' :: cs)).tokens.length - k.position) .key = textToken name :: .key :: tokens := by
    rw [hready.tokens, hposition, List.length_cons, Nat.add_sub_cancel_left]
    rfl
  refine ⟨_, hreaches.trans (hat.reaches_of_token hstarts htoken (Nat.lt_succ_self _)), ?_⟩
  refine after_eq (?_ : At _ (level + 1) _ false (':' :: cs)) cs .value false
  exact { hready with
    tokens := htokens
    loose := fun k hk => hready.loose k (List.mem_filter.mp hk).1 }

/-- The word for nothing, in front of what ends an entry. -/
theorem null {c : Char} (hc : c = ',' ∨ c = '\x7d')
    (h : s.At (level + 1) tokens false (FlowValue.null.source ++ c :: cs)) :
    ∃ u, s.Reaches u ∧ u.At (level + 1) (.scalar "null" true :: tokens) false (c :: cs) := by
  have hstarts : StartsToken (FlowValue.null.source ++ c :: cs) :=
    startsToken_cons (c := 'n') (by decide) _
  have hready := h.ready hstarts
  have hend : endsPlain true c cs = true ∧ isBreak c = false ∧ c ≠ ' ' := by
    rcases hc with rfl | rfl <;> exact ⟨by simp [endsPlain, isFlowIndicator], by decide, by decide⟩
  have hletters : ∀ (d : Char) rest, d = 'n' ∨ d = 'u' ∨ d = 'l' → endsPlain true d rest = false := by
    rintro d rest (rfl | rfl | rfl) <;>
      simp [endsPlain, isFlowIndicator, isGap, isSpaceOrBreak, isBreak]
  have hrun : plainRun true (FlowValue.null.source ++ c :: cs) = (FlowValue.null.source, c :: cs) := by
    simp [FlowValue.source, plainRun, hletters, hend.1]
  have hgap : plainGap (c :: cs) = ⟨[], c :: cs, false, 0⟩ := by
    simp [plainGap, hend.2.2, lineBreak?_of_isBreak hend.2.1]
  have hscalar : plainScalar? ((FlowValue.null.source ++ c :: cs).length + 1) true (-1 + 1)
      (FlowValue.null.source ++ c :: cs) = some ⟨FlowValue.null.source, c :: cs, false⟩ := by
    rw [plainScalar?, hrun]
    simp [hgap, FlowValue.source]
  have hmark : (s.ready (FlowValue.null.source ++ c :: cs)).markKey =
      .ok (s.ready (FlowValue.null.source ++ c :: cs)) := by
    rw [Scan.markKey, hready.allowed, if_neg (by decide)]
  have hflow : decide ((s.ready (FlowValue.null.source ++ c :: cs)).flow ≠ 0) = true := by
    rw [hready.flow]
    simp
  have htoken : (s.ready (FlowValue.null.source ++ c :: cs)).token =
      .ok { ((s.ready (FlowValue.null.source ++ c :: cs)).goTo (c :: cs)).add (.scalar "null" true) with
        keyAllowed := false } := by
    have hletter : (s.ready (FlowValue.null.source ++ c :: cs)).rest = 'n' :: (['u', 'l', 'l'] ++ c :: cs) :=
      rfl
    have hrest : (s.ready (FlowValue.null.source ++ c :: cs)).rest = FlowValue.null.source ++ c :: cs := rfl
    rw [token_of_letter hletter, plain, hmark]
    dsimp only [Bind.bind, Except.bind]
    rw [hrest, hflow, hready.indent, hscalar]
    rfl
  refine ⟨_, h.reaches_of_token hstarts htoken ?_, ?_⟩
  · change (c :: cs).length < _
    rw [List.length_append]
    exact Nat.lt_add_of_pos_left (by decide)
  · have hafter := hready.after_eq (c :: cs) (.scalar "null" true) false
    rwa [List.dropWhile_cons_of_neg (by simpa using hend.2.2)] at hafter

/-! ## Values and entries -/

theorem texts {more : List String} {text : String}
    (h : s.At (level + 1) tokens true
      (quoted text ++ ((more.flatMap fun text => ',' :: ' ' :: quoted text) ++ ']' :: cs))) :
    ∃ u, s.Reaches u ∧ u.At level
      (.flowSequenceEnd :: (textToken text :: more.flatMap fun text => [.flowEntry, textToken text]).reverse ++
        tokens) false (cs.dropWhile (· = ' ')) := by
  induction more generalizing s tokens text with
  | nil =>
      obtain ⟨u, hsu, hu, -⟩ := h.text
      obtain ⟨v, huv, hv⟩ := hu.flowEnd (by decide) fun _ => token_of_closeBracket
      exact ⟨v, hsu.trans huv, hv⟩
  | cons next more ih =>
      simp only [List.flatMap_cons, List.cons_append, List.append_assoc] at h
      obtain ⟨u, hsu, hu, -⟩ := h.text
      obtain ⟨v, huv, hv⟩ := hu.flowEntry
      obtain ⟨w, hvw, hw⟩ := @ih v _ next hv
      refine ⟨w, hsu.trans (huv.trans hvw), ?_⟩
      simpa using hw

theorem list {texts : List String}
    (h : s.At level tokens allowed ((FlowValue.list texts).source ++ cs)) :
    ∃ u, s.Reaches u ∧ u.At level ((FlowValue.list texts).tokens.reverse ++ tokens) false
      (cs.dropWhile (· = ' ')) := by
  obtain ⟨u, hsu, hu⟩ := h.flowStart (by decide) fun _ => token_of_openBracket
  cases texts with
  | nil =>
      obtain ⟨v, huv, hv⟩ := hu.flowEnd (by decide) fun _ => token_of_closeBracket
      exact ⟨v, hsu.trans huv, hv⟩
  | cons text more =>
      rw [commaSeparated_map_cons] at hu
      have htexts : u.At (level + 1) (.flowSequenceStart :: tokens) true
          (quoted text ++ ((more.flatMap fun text => ',' :: ' ' :: quoted text) ++ ']' :: cs)) := by
        simpa [quoted] using hu
      obtain ⟨v, huv, hv⟩ := htexts.texts
      refine ⟨v, hsu.trans huv, ?_⟩
      rw [FlowValue.tokens, entriesBetween_map_cons]
      simpa using hv

theorem value {c : Char} (hc : c = ',' ∨ c = '\x7d') {v : FlowValue}
    (h : s.At (level + 1) tokens false (v.source ++ c :: cs)) :
    ∃ u, s.Reaches u ∧ u.At (level + 1) (v.tokens.reverse ++ tokens) false (c :: cs) := by
  have hspace : (c :: cs).dropWhile (· = ' ') = c :: cs := by
    rcases hc with rfl | rfl <;> rfl
  cases v with
  | null => exact h.null hc
  | text text =>
      obtain ⟨u, hsu, hu, -⟩ := At.text h
      exact ⟨u, hsu, hspace ▸ hu⟩
  | list texts =>
      obtain ⟨u, hsu, hu⟩ := h.list
      exact ⟨u, hsu, hspace ▸ hu⟩

theorem entry {c : Char} (hc : c = ',' ∨ c = '\x7d') {e : String × FlowValue}
    (he : IsShortKey e.1)
    (h : s.At (level + 1) tokens true (entrySource e ++ c :: cs)) :
    ∃ u, s.Reaches u ∧ u.At (level + 1) ((entryTokens e).reverse ++ tokens) false (c :: cs) := by
  have hkey : s.At (level + 1) tokens true (quoted e.1 ++ ':' :: (' ' :: e.2.source ++ c :: cs)) := by
    simpa [entrySource] using h
  obtain ⟨u, hsu, hu⟩ := key he hkey
  have hstart : (' ' :: e.2.source ++ c :: cs).dropWhile (· = ' ') = e.2.source ++ c :: cs := by
    cases e.2 <;> simp [FlowValue.source, quoted]
  rw [hstart] at hu
  obtain ⟨v, huv, hv⟩ := hu.value hc
  refine ⟨v, hsu.trans huv, ?_⟩
  simpa [entryTokens] using hv

theorem entries {more : List (String × FlowValue)} {e : String × FlowValue}
    (hshort : ∀ e' ∈ e :: more, IsShortKey e'.1)
    (h : s.At (level + 1) tokens true
      (entrySource e ++ ((more.flatMap fun e => ',' :: ' ' :: entrySource e) ++ '\x7d' :: cs))) :
    ∃ u, s.Reaches u ∧ u.At level
      (.flowMappingEnd :: (entryTokens e ++ more.flatMap fun e => .flowEntry :: entryTokens e).reverse ++
        tokens) false (cs.dropWhile (· = ' ')) := by
  induction more generalizing s tokens e with
  | nil =>
      obtain ⟨u, hsu, hu⟩ := At.entry (.inr rfl) (hshort e List.mem_cons_self) (by simpa using h)
      obtain ⟨v, huv, hv⟩ := hu.flowEnd (by decide) fun _ => token_of_closeBrace
      exact ⟨v, hsu.trans huv, by simpa using hv⟩
  | cons next more ih =>
      simp only [List.flatMap_cons, List.cons_append, List.append_assoc] at h
      obtain ⟨u, hsu, hu⟩ := At.entry (.inl rfl) (hshort e List.mem_cons_self) h
      obtain ⟨v, huv, hv⟩ := hu.flowEntry
      obtain ⟨w, hvw, hw⟩ := ih (e := next) (fun e' he' => hshort e' (List.mem_cons_of_mem _ he')) hv
      refine ⟨w, hsu.trans (huv.trans hvw), ?_⟩
      simpa using hw

end At

/-! ## The whole text -/

theorem at_start (cs : List Char) : (start cs).At 0 [] true (cs.dropWhile (· = ' ')) where
  flow := rfl
  tokens := rfl
  allowed := rfl
  rest := rfl
  loose := List.forall_mem_nil _
  indent := rfl
  finished := rfl

/-- At the end of the text the tokens are complete. -/
theorem At.run_eq (h : s.At 0 tokens allowed []) (bound : Nat) :
    s.run (bound + 1) = (.streamEnd :: tokens).reverse := by
  have hstarts : StartsToken [] := fun c hc => by cases hc
  obtain ⟨u, hu, hat, -⟩ := (h.ready hstarts).dropKey
  have htoken : (s.ready []).token =
      .ok { u.add .streamEnd with keyAllowed := false, keys := [], finished := true } := by
    change (s.ready []).streamEnd = _
    unfold streamEnd
    rw [unwind_of_indent (h.ready hstarts).indent (by omega), hu]
    rfl
  rw [run, h.finished, h.next_eq hstarts, htoken, if_neg (by decide)]
  dsimp only
  rw [run.eq_def, if_pos rfl]
  change (.streamEnd :: u.tokens).reverse = _
  rw [hat.tokens]

end Scan

/-- A mapping on one line is cut into the tokens it is written of. -/
theorem tokens_flowMapping {entries : List (String × FlowValue)}
    (hshort : ∀ e ∈ entries, IsShortKey e.1) :
    tokens (flowMapping entries) = flowMappingTokens entries ++ [.streamEnd] := by
  have hallowed : (flowMapping entries).all isAllowed := by
    rw [List.all_eq_true]
    exact fun c hc => isAllowed_of_isPrintableAscii (of_mem_flowMapping hc).1
  obtain ⟨s, hs, hat⟩ : ∃ s, (Scan.start (flowMapping entries)).Reaches s ∧
      s.At 0 (flowMappingTokens entries).reverse false [] := by
    have hstart : (Scan.start (flowMapping entries)).At 0 [] true
        ('\x7b' :: (commaSeparated (entries.map entrySource) ++ ['\x7d'])) :=
      Scan.at_start (flowMapping entries)
    obtain ⟨s, hs, hat⟩ := hstart.flowStart (by decide) fun _ => Scan.token_of_openBrace
    cases entries with
    | nil =>
        obtain ⟨t, ht, hat⟩ := hat.flowEnd (by decide) fun _ => Scan.token_of_closeBrace
        exact ⟨t, hs.trans ht, hat⟩
    | cons e more =>
        rw [commaSeparated_map_cons] at hat
        have hentries : s.At 1 [.flowMappingStart] true
            (entrySource e ++ ((more.flatMap fun e => ',' :: ' ' :: entrySource e) ++ '\x7d' :: [])) := by
          simpa [entrySource, quoted] using hat
        obtain ⟨t, ht, hat⟩ := hentries.entries hshort
        refine ⟨t, hs.trans ht, ?_⟩
        rw [flowMappingTokens, entriesBetween_map_cons]
        simpa using hat
  obtain ⟨steps, hsteps, hrun⟩ := hs
  have hlength : steps ≤ (flowMapping entries).length := Nat.le_of_add_right_le hsteps
  have hbound : 2 * (flowMapping entries).length + 2 =
      steps + (2 * (flowMapping entries).length + 1 - steps + 1) := by omega
  rw [tokens, if_pos hallowed, hbound, hrun, hat.run_eq, List.reverse_cons, List.reverse_reverse]

end ImageTrust.Yaml
