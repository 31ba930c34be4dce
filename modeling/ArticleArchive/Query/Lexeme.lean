import ArticleArchive.Query.Error
import ArticleArchive.Text.WordChar

namespace ArticleArchive

/-- A token and the indices where it starts and where the text after it starts. -/
structure Lexeme where
  token : Token
  start : Nat
  stop : Nat
  deriving DecidableEq

namespace Lexeme

/-- The token inside an exclusion starts after the hyphen. -/
def inner? (l : Lexeme) : Option Lexeme :=
  match l.token with
  | .exclude t => some ⟨t, l.start + 1, l.stop⟩
  | _ => none

def source (raw : Text) (l : Lexeme) : Text :=
  (raw.take l.stop).drop l.start

/-- The text up to the next double quote, and what follows the quote. -/
def readQuoted? (t : Text) : Option (Text × Text) :=
  match t.dropWhile (· ≠ '"') with
  | [] => none
  | _ :: rest => some (t.takeWhile (· ≠ '"'), rest)

def isBareChar (c : Char) : Bool :=
  !Text.isBlank c && c != '"'

def readBare (t : Text) : Text × Text :=
  (t.takeWhile isBareChar, t.dropWhile isBareChar)

def isNameStart (c : Char) : Bool :=
  c.isAlpha || c == '_'

def isNameChar (c : Char) : Bool :=
  c.isAlphanum || c == '_'

/-- A field name in ASCII letters, digits and underscores, and what follows the colon after it. -/
def readFieldName? (t : Text) : Option (Text × Text) :=
  match t with
  | c :: cs =>
    if isNameStart c then
      match cs.dropWhile isNameChar with
      | ':' :: rest => some (c :: cs.takeWhile isNameChar, rest)
      | _ => none
    else none
  | [] => none

/-- The mark at the beginning of a value, the longest that fits, and the rest of the value. -/
def readComparison? : Text → Option (Comparison × Text)
  | '>' :: '=' :: r => some (.ge, r)
  | '<' :: '=' :: r => some (.le, r)
  | '>' :: r => some (.gt, r)
  | '<' :: r => some (.lt, r)
  | _ => none

/-- The parts of a value before and after its first two dots in a row. -/
def splitDots? : Text → Option (Text × Text)
  | '.' :: '.' :: r => some ([], r)
  | c :: cs => (splitDots? cs).map fun p => (c :: p.1, p.2)
  | [] => none

/-- A day alone is the interval from that day to itself. -/
def dateToken (value : Text) : Except Failure Token :=
  match splitDots? value with
  | some (low, high) =>
    if low.isEmpty || high.isEmpty then .error (.malformed (.emptyFieldValue dateField))
    else .ok (.dates low high)
  | none =>
    match readComparison? value with
    | some (op, day) =>
      if day.isEmpty then .error (.malformed (.emptyFieldValue dateField))
      else .ok (.range dateField op day)
    | none => .ok (.dates value value)

/-- A number without a mark is compared for equality. -/
def numberToken (name value : Text) : Except Failure Token :=
  match readComparison? value with
  | some (op, number) =>
    if number.isEmpty then .error (.malformed (.emptyFieldValue name))
    else .ok (.range name op number)
  | none => .ok (.range name .eq value)

/-- Whether `c` is one of the letters of a direction, whatever its case; U+017F is an `s`. -/
def matchesLetter (letter c : Char) : Bool :=
  c == letter || c == letter.toUpper || (letter == 's' && c == '\u017F')

def matchesWord : (word t : Text) → Bool
  | [], [] => true
  | l :: ls, c :: cs => matchesLetter l c && matchesWord ls cs
  | _, _ => false

/-- A key of word characters and a direction, with a colon between them. The direction keeps its
letters but for the case of the ASCII ones. -/
def sortToken? (value : Text) : Option Token :=
  match value.takeWhile Text.isWordChar, value.dropWhile Text.isWordChar with
  | [], _ => none
  | key, ':' :: direction =>
    if matchesWord "asc".toList direction || matchesWord "desc".toList direction then
      some (.sort key (direction.map Char.toLower))
    else none
  | _, _ => none

def isViewsName (name : Text) : Bool :=
  name == "views".toList || name == "view_count".toList

/-- The token of a field with a value that is not empty; `written` is the value as the query has
it, with its quotes. -/
def fieldToken (name value written : Text) (quoted : Bool) : Except Failure Token :=
  if name = sortField then
    match sortToken? value with
    | some t => .ok t
    | none => .error (.malformed (.invalidSort (name ++ ':' :: written)))
  else if name = dateField then dateToken value
  else if isViewsName name then numberToken name value
  else .ok (.field name value quoted)

def scanField (name : Text) (t : Text) : Except Failure (Token × Text) :=
  let finish (value written rest : Text) (quoted : Bool) : Except Failure (Token × Text) :=
    if value.isEmpty then .error (.malformed (.emptyFieldValue name))
    else (fieldToken name value written quoted).map fun token => (token, rest)
  match t with
  | '"' :: cs =>
    match readQuoted? cs with
    | none => .error (.fault .unclosedQuote)
    | some (value, rest) => finish value ('"' :: (value ++ ['"'])) rest true
  | t =>
    let (value, rest) := readBare t
    finish value value rest false

def scanPhrase (t : Text) : Except Failure (Token × Text) :=
  match readQuoted? t with
  | none => .error (.fault .unclosedQuote)
  | some (text, rest) =>
    if text.isEmpty then .error (.malformed .emptyPhrase) else .ok (.phrase text, rest)

/-- A bare word; the keywords join clauses unless they are excluded. -/
def bareToken (text : Text) (excluded : Bool) : Token :=
  if excluded then .word text
  else if text = Connective.and.keyword then .connective .and
  else if text = Connective.or.keyword then .connective .or
  else .word text

def scanTerm (excluded : Bool) (t : Text) : Except Failure (Token × Text) :=
  match t with
  | '"' :: cs => scanPhrase cs
  | t =>
    match readFieldName? t with
    | some (name, rest) => scanField name rest
    | none =>
      let (text, rest) := readBare t
      .ok (bareToken text excluded, rest)

/-- The token at the beginning of a text that starts with no blank. A hyphen excludes the term
right after it. -/
def scanToken (t : Text) : Except Failure (Token × Text) :=
  match t with
  | '-' :: c :: cs =>
    if Text.isBlank c then scanTerm false t
    else (scanTerm true (c :: cs)).map fun p => (.exclude p.1, p.2)
  | t => scanTerm false t

theorem length_dropWhile_le (p : Char → Bool) (t : Text) : (t.dropWhile p).length ≤ t.length :=
  (List.dropWhile_sublist p).length_le

theorem readQuoted?_length {t s r : Text} (h : readQuoted? t = some (s, r)) :
    r.length < t.length := by
  have := length_dropWhile_le (· ≠ '"') t
  unfold readQuoted? at h
  split at h
  · simp at h
  · rename_i heq
    simp only [Option.some.injEq, Prod.mk.injEq] at h
    simp only [heq, List.length_cons, h.2] at this
    omega

theorem readFieldName?_length {t n r : Text} (h : readFieldName? t = some (n, r)) :
    r.length < t.length := by
  unfold readFieldName? at h
  split at h
  · rename_i c cs
    have := length_dropWhile_le isNameChar cs
    split at h
    · split at h
      · rename_i heq
        simp only [Option.some.injEq, Prod.mk.injEq] at h
        simp only [heq, List.length_cons, h.2] at this
        simp only [List.length_cons]
        omega
      · simp at h
    · simp at h
  · simp at h

theorem scanField_length {n t r : Text} {k : Token} (h : scanField n t = .ok (k, r)) :
    r.length ≤ t.length := by
  have finish {e : Except Failure Token} {rest : Text} {b : Bool} {f : Failure}
      (h : (if b = true then .error f else e.map fun token => (token, rest)) = .ok (k, r)) :
      rest = r := by
    cases b <;> cases e <;> simp_all [Except.map]
  unfold scanField at h
  split at h
  · split at h
    · simp at h
    · rename_i hq
      have := readQuoted?_length hq
      rw [← finish h]
      simp only [List.length_cons]
      omega
  · rw [← finish h]
    exact length_dropWhile_le isBareChar _

theorem readBare_length {c : Char} {cs : Text} (h : isBareChar c = true) :
    (readBare (c :: cs)).2.length < (c :: cs).length := by
  have := length_dropWhile_le isBareChar cs
  simp only [readBare, List.dropWhile_cons, h, ite_true, List.length_cons]
  omega

theorem scanTerm_length {b : Bool} {c : Char} {cs r : Text} {k : Token}
    (hc : Text.isBlank c = false) (h : scanTerm b (c :: cs) = .ok (k, r)) :
    r.length < (c :: cs).length := by
  unfold scanTerm at h
  split at h
  · rename_i heq
    simp only [List.cons.injEq] at heq
    unfold scanPhrase at h
    split at h
    · simp at h
    · rename_i hq
      have := readQuoted?_length hq
      split at h
      · simp at h
      · simp only [Except.ok.injEq, Prod.mk.injEq] at h
        simp only [heq.2, List.length_cons, ← h.2]
        omega
  · rename_i t hne
    split at h
    · rename_i hn
      have := readFieldName?_length hn
      have := scanField_length h
      omega
    · simp only [Except.ok.injEq, Prod.mk.injEq] at h
      have hq : c ≠ '"' := fun e => hne cs (by rw [e])
      rw [← h.2]
      exact readBare_length (by simp [isBareChar, hc, hq])

theorem scanToken_length {c : Char} {cs r : Text} {k : Token}
    (hc : Text.isBlank c = false) (h : scanToken (c :: cs) = .ok (k, r)) :
    r.length < (c :: cs).length := by
  unfold scanToken at h
  split at h
  · rename_i d ds heq
    simp only [List.cons.injEq] at heq
    split at h
    · exact scanTerm_length hc h
    · rename_i hd
      cases hs : scanTerm true (d :: ds) with
      | error e => simp [hs, Except.map] at h
      | ok p =>
        obtain ⟨k', r'⟩ := p
        have := scanTerm_length (by simpa using hd) hs
        simp only [hs, Except.map, Except.ok.injEq, Prod.mk.injEq] at h
        simp only [heq.2, List.length_cons, ← h.2] at this ⊢
        omega
  · exact scanTerm_length hc h

/-- The tokens of a text that starts at index `start` of the query. -/
def scanFrom (start : Nat) (t : Text) : Except Failure (List Lexeme) :=
  match t with
  | [] => .ok []
  | c :: cs =>
    if hc : Text.isBlank c = true then scanFrom (start + 1) cs
    else
      match _ : scanToken (c :: cs) with
      | .error e => .error e
      | .ok (token, rest) =>
        let stop := start + ((c :: cs).length - rest.length)
        (scanFrom stop rest).map (⟨token, start, stop⟩ :: ·)
termination_by t.length
decreasing_by
  · simp
  · exact scanToken_length (by simpa using hc) ‹_›

/-- The tokens of a query; the double quotes have to come in pairs. Blanks outside quotes separate
tokens, and every other character belongs to exactly one of them. -/
def ofText (raw : Text) : Except Failure (List Lexeme) :=
  if raw.count '"' % 2 = 1 then .error (.malformed (.unbalancedQuotes raw)) else scanFrom 0 raw

end Lexeme

end ArticleArchive
