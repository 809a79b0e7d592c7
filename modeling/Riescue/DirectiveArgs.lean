import Riescue.AssemblyLines
import Riescue.LibOrderedDict
import Riescue.LibSeparated

/-! The arguments of a directive, `Parser._parse_directive_args`: `key=value` pairs between commas, where commas in brackets
and in string literals belong to a value. Pairs that are written out are read back. -/

namespace Riescue.DirectiveArgs
open AssemblyWriter (isSpace startsWith strip)

abbrev Text := List Char

/-- The local variables of the loop. -/
structure Scan where
  args : List (Text × Text)
  depth : ℤ
  currentKey : Option Text
  currentValue : Text
  inString : Bool

namespace Scan

def extend (s : Scan) (text : Text) : Scan := { s with currentValue := s.currentValue ++ text }

def push (s : Scan) (char : Char) : Scan := s.extend [char]

/-- The arguments with the current one, if it has a key. -/
def close (s : Scan) : List (Text × Text) :=
  match s.currentKey with
  | none => s.args
  | some key => if key = [] then s.args else OrderedDict.insert s.args key (strip s.currentValue)

def step (s : Scan) (char : Char) : Scan :=
  if char ∈ "\"\x27".toList then { s.push char with inString := !s.inString }
  else if s.inString then s.push char
  else if char ∈ "[\x7b".toList then { s.push char with depth := s.depth + 1 }
  else if char ∈ "]\x7d".toList then { s.push char with depth := s.depth - 1 }
  else if char = '=' ∧ s.depth = 0 then { s with currentKey := some (strip s.currentValue), currentValue := [] }
  else if char = ',' ∧ s.depth = 0 then { s with args := s.close, currentKey := none, currentValue := [] }
  else s.push char

end Scan

/-- `_parse_directive_args` -/
def parseDirectiveArgs (argsStr : Text) : List (Text × Text) :=
  let argsStr := strip argsStr
  if argsStr = [] then [] else (argsStr.foldl Scan.step ⟨[], 0, none, [], false⟩).close

/-- What the pattern `^start(.+)\)` captures, where `start` ends with the opening bracket: the text up to the last bracket of
the line. -/
def content (start : String) (line : Text) : Option Text :=
  if startsWith start line then
    let rest := (line.drop start.toList.length).takeWhile (· ≠ '\n')
    match rest.reverse.dropWhile (· ≠ ')') with
    | [] => none
    | _ :: captured => if captured = [] then none else some captured.reverse
  else none

/-- The digits of a number, with underscores between them. -/
def digits (text : Text) : Option ℕ :=
  let groups := text.splitOn '_'
  if groups.all fun group => !group.isEmpty && group.all Char.isDigit then some (Nat.ofDigitChars 10 groups.flatten 0) else none

/-- `int(text)`, for digits of the ASCII range. -/
def int (text : Text) : Option ℤ :=
  match strip text with
  | '-' :: unsigned => (digits unsigned).map fun n : ℕ => -(n : ℤ)
  | '+' :: unsigned => (digits unsigned).map fun n : ℕ => (n : ℤ)
  | unsigned => (digits unsigned).map fun n : ℕ => (n : ℤ)

/-- `str(number)` -/
def decimal (number : ℤ) : Text :=
  if number < 0 then '-' :: Nat.toDigits 10 number.natAbs else Nat.toDigits 10 number.natAbs

/-- `hex(number)` -/
def hex (number : ℤ) : Text :=
  if number < 0 then "-0x".toList ++ Nat.toDigits 16 number.natAbs else "0x".toList ++ Nat.toDigits 16 number.natAbs

/-- The pair as a directive has it. -/
def renderArg (arg : Text × Text) : Text := arg.1 ++ '=' :: arg.2

/-- The pairs with `, ` between them. -/
def renderArgs : List (Text × Text) → Text
  | [] => []
  | [arg] => renderArg arg
  | arg :: args => renderArg arg ++ ',' :: ' ' :: renderArgs args

/-! ### Stripping -/

abbrev Trimmed (text : Text) : Prop := Separated.Trimmed isSpace text

abbrev Around (core text : Text) : Prop := Separated.Around isSpace core text

theorem strip_eq (text : Text) : strip text = Separated.trim isSpace text := rfl

theorem Trimmed.strip {text : Text} (h : Trimmed text) : strip text = text := by
  cases text with
  | nil => rfl
  | cons c text => exact Separated.Trimmed.trim h nofun

theorem Around.strip {core text : Text} (h : Around core text) (hcore : Trimmed core) (hne : core ≠ []) :
    strip text = core := Separated.Around.trim h hcore hne

/-! ### Reading pairs back -/

/-- The characters with a meaning of their own. -/
def special : Text := "\"\x27[]\x7b\x7d=,\n".toList

def isPlain (c : Char) : Bool := c ∉ special

/-- A character that a directive cannot take for something else. -/
def isWordChar (c : Char) : Bool := isPlain c && !isSpace c

def IsWord (text : Text) : Prop := text ≠ [] ∧ text.all isWordChar = true

theorem IsWord.mem {text : Text} (h : IsWord text) {c : Char} (hc : c ∈ text) : isPlain c = true ∧ isSpace c = false := by
  have hchar := List.all_eq_true.mp h.2 c hc
  rwa [isWordChar, Bool.and_eq_true, Bool.not_eq_true'] at hchar

theorem IsWord.trimmed {text : Text} (h : IsWord text) : Trimmed text := Separated.Trimmed.of_forall fun _ hc => (h.mem hc).2

theorem IsWord.append {front back : Text} (hfront : IsWord front) (hback : IsWord back) : IsWord (front ++ back) := by
  refine ⟨List.append_ne_nil_of_left_ne_nil hfront.1 _, ?_⟩
  rw [List.all_append, hfront.2, hback.2, Bool.and_self]

/-- The scan takes the text over as it stands. -/
def Inert (text : Text) : Prop :=
  ∀ s : Scan, s.inString = false → s.depth = 0 → text.foldl Scan.step s = s.extend text

/-- The characters that have a meaning in brackets, too. -/
def specialInside : Text := "\"\x27[]\x7b\x7d".toList

def isInner (c : Char) : Bool := c ∉ specialInside

theorem isInner_of_isPlain {c : Char} (hc : isPlain c = true) : isInner c = true := by
  have hsubset : specialInside ⊆ special := by decide
  rw [isInner, decide_eq_true_iff]
  exact fun hmem => of_decide_eq_true hc (hsubset hmem)

theorem step_inner {s : Scan} (hstring : s.inString = false) {c : Char} (hc : isInner c = true)
    (hseparates : s.depth = 0 → c ≠ '=' ∧ c ≠ ',') : s.step c = s.push c := by
  have hnot : ∀ chars : String, chars.toList ⊆ specialInside → c ∉ chars.toList :=
    fun chars hsubset hmem => of_decide_eq_true hc (hsubset hmem)
  rw [Scan.step, if_neg (hnot "\"\x27" (by decide)), if_neg (by rw [hstring]; decide), if_neg (hnot "[\x7b" (by decide)),
    if_neg (hnot "]\x7d" (by decide)), if_neg (fun h => (hseparates h.2).1 h.1), if_neg (fun h => (hseparates h.2).2 h.1)]

theorem step_equals {s : Scan} (hstring : s.inString = false) (hdepth : s.depth = 0) :
    s.step '=' = { s with currentKey := some (strip s.currentValue), currentValue := [] } := by
  rw [Scan.step, if_neg (by decide), if_neg (Bool.eq_false_iff.mp hstring), if_neg (by decide), if_neg (by decide),
    if_pos ⟨rfl, hdepth⟩]

theorem step_comma {s : Scan} (hstring : s.inString = false) (hdepth : s.depth = 0) :
    s.step ',' = { s with args := s.close, currentKey := none, currentValue := [] } := by
  rw [Scan.step, if_neg (by decide), if_neg (Bool.eq_false_iff.mp hstring), if_neg (by decide), if_neg (by decide),
    if_neg (fun h => absurd h.1 (by decide)), if_pos ⟨rfl, hdepth⟩]

theorem extend_nil (s : Scan) : s.extend [] = s := by
  rw [Scan.extend, List.append_nil]

theorem extend_extend (s : Scan) (front back : Text) : (s.extend front).extend back = s.extend (front ++ back) := by
  rw [Scan.extend, Scan.extend, Scan.extend, List.append_assoc]

theorem inert_nil : Inert [] := fun s _ _ => (extend_nil s).symm

theorem Inert.append {front back : Text} (hfront : Inert front) (hback : Inert back) : Inert (front ++ back) := by
  intro s hstring hdepth
  rw [List.foldl_append, hfront s hstring hdepth, hback (s.extend front) hstring hdepth, extend_extend]

theorem inert_of_forall {text : Text} (htext : ∀ c ∈ text, isInner c = true ∧ c ≠ '=' ∧ c ≠ ',') : Inert text := by
  induction text with
  | nil => exact inert_nil
  | cons c text ih =>
      obtain ⟨⟨hc, hseparates⟩, hrest⟩ := List.forall_mem_cons.mp htext
      exact @Inert.append [c] text (fun s hstring _ => step_inner hstring hc fun _ => hseparates) (ih hrest)

theorem inert_of_plain {text : Text} (htext : ∀ c ∈ text, isPlain c = true) : Inert text := by
  refine inert_of_forall fun c hc => ⟨isInner_of_isPlain (htext c hc), ?_, ?_⟩
  · rintro rfl
    exact absurd (htext _ hc) (by decide)
  · rintro rfl
    exact absurd (htext _ hc) (by decide)

theorem isInner_of_isSpace {c : Char} (hc : isSpace c = true) : isInner c = true := by
  have hspecial : specialInside.all (fun c => !isSpace c) = true := by decide
  rw [isInner, decide_eq_true_iff]
  intro hmem
  have hnot := List.all_eq_true.mp hspecial c hmem
  rw [hc] at hnot
  exact absurd hnot (by decide)

theorem inert_of_blanks {text : Text} (htext : Separated.Blanks isSpace text) : Inert text := by
  refine inert_of_forall fun c hc => ⟨isInner_of_isSpace (htext c hc), ?_, ?_⟩
  · rintro rfl
    exact absurd (htext _ hc) (by decide)
  · rintro rfl
    exact absurd (htext _ hc) (by decide)

theorem Around.inert {core text : Text} (h : Around core text) (hcore : Inert core) : Inert text := by
  obtain ⟨before, after, hbefore, hafter, rfl⟩ := h
  exact ((inert_of_blanks hbefore).append hcore).append (inert_of_blanks hafter)

/-- Inside brackets nothing separates. -/
theorem foldl_inner {text : Text} (htext : ∀ c ∈ text, isInner c = true) {s : Scan} (hstring : s.inString = false)
    (hdepth : s.depth ≠ 0) : text.foldl Scan.step s = s.extend text := by
  induction text generalizing s with
  | nil => exact (extend_nil s).symm
  | cons c text ih =>
      obtain ⟨hc, hrest⟩ := List.forall_mem_cons.mp htext
      have hpush : (s.push c).inString = false := hstring
      rw [List.foldl_cons, step_inner hstring hc (fun h => absurd h hdepth), ih hrest hpush hdepth, Scan.push,
        extend_extend, List.singleton_append]

/-- The scan takes the text over as it stands, between brackets. -/
def Inside (text : Text) : Prop :=
  ∀ s : Scan, s.inString = false → 0 < s.depth → text.foldl Scan.step s = s.extend text

theorem inside_of_inner {text : Text} (htext : ∀ c ∈ text, isInner c = true) : Inside text :=
  fun _ hstring hdepth => foldl_inner htext hstring (by omega)

theorem Inside.append {front back : Text} (hfront : Inside front) (hback : Inside back) : Inside (front ++ back) := by
  intro s hstring hdepth
  rw [List.foldl_append, hfront s hstring hdepth, hback (s.extend front) hstring hdepth, extend_extend]

/-- Brackets around a text. -/
theorem foldl_bracketed {first last : Char} (hfirst : first ∈ "[\x7b".toList) (hlast : last ∈ "]\x7d".toList) {inner : Text}
    (hinner : Inside inner) {s : Scan} (hstring : s.inString = false) (hdepth : 0 ≤ s.depth) :
    (first :: inner ++ [last]).foldl Scan.step s = s.extend (first :: inner ++ [last]) := by
  have hquoteFirst : first ∉ "\"\x27".toList := by
    rcases List.mem_cons.mp hfirst with rfl | h
    · decide
    · rw [List.mem_singleton.mp h]
      decide
  have hlastNot : last ∉ "\"\x27".toList ∧ last ∉ "[\x7b".toList := by
    rcases List.mem_cons.mp hlast with rfl | h
    · decide
    · rw [List.mem_singleton.mp h]
      decide
  let opened : Scan := { s with depth := s.depth + 1 }
  have hoff : ¬ s.inString = true := Bool.eq_false_iff.mp hstring
  have hopen : s.step first = opened.push first := by
    rw [Scan.step, if_neg hquoteFirst, if_neg hoff, if_pos hfirst]
    rfl
  have hclose : ∀ text : Text, (opened.extend text).step last = (s.extend text).push last := by
    intro text
    have hback : (opened.extend text).depth - 1 = s.depth := Int.add_sub_cancel s.depth 1
    have hoff' : ¬ (opened.extend text).inString = true := hoff
    rw [Scan.step, if_neg hlastNot.1, if_neg hoff', if_neg hlastNot.2, if_pos hlast, hback]
    rfl
  have hon : (opened.push first).inString = false := hstring
  have hinside : 0 < (opened.push first).depth := Int.lt_add_one_iff.mpr hdepth
  calc (first :: inner ++ [last]).foldl Scan.step s
    _ = Scan.step (inner.foldl Scan.step (s.step first)) last := by rw [List.foldl_append]; rfl
    _ = Scan.step (opened.extend ([first] ++ inner)) last := by rw [hopen, hinner _ hon hinside, Scan.push, extend_extend]
    _ = s.extend (first :: inner ++ [last]) := by rw [hclose, Scan.push, extend_extend]; rfl

theorem inert_brackets {inner : Text} (hinner : Inside inner) : Inert ('[' :: inner ++ [']']) :=
  fun _ hstring hdepth => foldl_bracketed (by decide) (by decide) hinner hstring (by omega)

theorem inside_braces {inner : Text} (hinner : Inside inner) : Inside ('\x7b' :: inner ++ ['\x7d']) :=
  fun _ hstring hdepth => foldl_bracketed (by decide) (by decide) hinner hstring (by omega)

/-- A value that can be written out and read back. -/
structure IsValue (value : Text) : Prop where
  inert : Inert value
  trimmed : Trimmed value
  nonempty : value ≠ []
  line : '\n' ∉ value

theorem IsWord.isValue {text : Text} (h : IsWord text) : IsValue text where
  inert := inert_of_plain fun _ hc => (h.mem hc).1
  trimmed := h.trimmed
  nonempty := h.1
  line hmem := absurd (h.mem hmem).1 (by decide)

/-- A key and a printed value, with blanks around the sign between them. -/
def PrintsPair {β : Type} (prints : β → Text → Prop) (pair : Text × β) (text : Text) : Prop :=
  ∃ before after value, Separated.Blanks isSpace before ∧ Separated.Blanks isSpace after ∧ prints pair.2 value ∧
    text = pair.1 ++ before ++ '=' :: (after ++ value)

theorem PrintsPair.trimmed {β : Type} {prints : β → Text → Prop} {pair : Text × β} {text : Text}
    (h : PrintsPair prints pair text) (hkey : IsWord pair.1)
    (hvalue : ∀ value, prints pair.2 value → Trimmed value ∧ value ≠ []) : Trimmed text ∧ text ≠ [] := by
  obtain ⟨before, after, value, -, -, hprints, rfl⟩ := h
  obtain ⟨htrimmed, hne⟩ := hvalue value hprints
  have hends := Separated.Trimmed.append hkey.trimmed htrimmed hkey.1 hne (before ++ '=' :: after)
  rw [List.append_assoc, List.append_assoc, List.cons_append, ← List.append_assoc] at hends
  exact ⟨hends, List.append_ne_nil_of_left_ne_nil (List.append_ne_nil_of_left_ne_nil hkey.1 _) _⟩

/-- The scan of a pair: its key is current, and its value with the blanks around it. -/
theorem foldl_printsPair {β : Type} {prints : β → Text → Prop} {pair : Text × β} {core text : Text}
    (hcore : PrintsPair prints pair core) (htext : Around core text) (hkey : IsWord pair.1)
    (hvalue : ∀ value, prints pair.2 value → IsValue value) (args : List (Text × Text)) (currentKey : Option Text) :
    ∃ value, prints pair.2 value ∧ ∃ spaced, Around value spaced ∧
      text.foldl Scan.step ⟨args, 0, currentKey, [], false⟩ = ⟨args, 0, some pair.1, spaced, false⟩ := by
  obtain ⟨lead, trail, hlead, htrail, rfl⟩ := htext
  obtain ⟨before, after, value, hbefore, hafter, hprints, rfl⟩ := hcore
  refine ⟨value, hprints, after ++ value ++ trail, ⟨after, trail, hafter, htrail, rfl⟩, ?_⟩
  have hspacedKey : Around pair.1 (lead ++ pair.1 ++ before) := ⟨lead, before, hlead, hbefore, rfl⟩
  have hspacedValue : Around value (after ++ value ++ trail) := ⟨after, trail, hafter, htrail, rfl⟩
  have hsplit : lead ++ (pair.1 ++ before ++ '=' :: (after ++ value)) ++ trail =
      lead ++ pair.1 ++ before ++ '=' :: (after ++ value ++ trail) := by
    simp only [List.append_assoc, List.cons_append]
  have hequals : Scan.step ⟨args, 0, currentKey, lead ++ pair.1 ++ before, false⟩ '=' =
      ⟨args, 0, some pair.1, [], false⟩ := by
    rw [step_equals rfl rfl, hspacedKey.strip hkey.trimmed hkey.1]
  rw [hsplit, List.foldl_append, hspacedKey.inert hkey.isValue.inert _ rfl rfl, List.foldl_cons]
  exact (congrArg (List.foldl Scan.step · _) hequals).trans (hspacedValue.inert (hvalue value hprints).inert _ rfl rfl)

theorem close_of_key {key value spaced : Text} (args : List (Text × Text)) (hkey : key ≠ []) (hspaced : Around value spaced)
    (hvalue : IsValue value) : Scan.close ⟨args, 0, some key, spaced, false⟩ = OrderedDict.insert args key value := by
  unfold Scan.close
  dsimp only
  rw [if_neg hkey, hspaced.strip hvalue.trimmed hvalue.nonempty]

/-- What a printed pair is read as. -/
def ReadsPair {β : Type} (prints : β → Text → Prop) (pair : Text × β) (arg : Text × Text) : Prop :=
  arg.1 = pair.1 ∧ prints pair.2 arg.2

/-- The pairs go to the dictionary one after the other. -/
theorem foldl_printed {β : Type} {prints : β → Text → Prop} {pairs : List (Text × β)} {text : Text}
    (hprinted : Separated.Printed isSpace ',' (PrintsPair prints) pairs text) (hkeys : ∀ pair ∈ pairs, IsWord pair.1)
    (hvalues : ∀ pair ∈ pairs, ∀ value, prints pair.2 value → IsValue value) (args : List (Text × Text)) :
    ∃ raws, List.Forall₂ (ReadsPair prints) pairs raws ∧
      (text.foldl Scan.step ⟨args, 0, none, [], false⟩).close = OrderedDict.assign args raws := by
  induction hprinted generalizing args with
  | nil => exact ⟨[], .nil, rfl⟩
  | single hcore hpiece =>
      obtain ⟨value, hprints, spaced, hspaced, hfold⟩ := foldl_printsPair hcore hpiece (hkeys _ List.mem_cons_self)
        (hvalues _ List.mem_cons_self) args none
      have hclose := close_of_key args (hkeys _ List.mem_cons_self).1 hspaced (hvalues _ List.mem_cons_self value hprints)
      exact ⟨[(_, value)], .cons ⟨rfl, hprints⟩ .nil, by rw [hfold, hclose]; rfl⟩
  | @cons pair next pairs core piece rest hcore hpiece _ ih =>
      obtain ⟨value, hprints, spaced, hspaced, hfold⟩ := foldl_printsPair hcore hpiece (hkeys _ List.mem_cons_self)
        (hvalues _ List.mem_cons_self) args none
      have hclose := close_of_key args (hkeys _ List.mem_cons_self).1 hspaced (hvalues _ List.mem_cons_self value hprints)
      obtain ⟨raws, hraws, hrest⟩ := ih (fun p hp => hkeys p (List.mem_cons_of_mem _ hp))
        (fun p hp => hvalues p (List.mem_cons_of_mem _ hp)) (OrderedDict.insert args pair.1 value)
      refine ⟨(pair.1, value) :: raws, .cons ⟨rfl, hprints⟩ hraws, ?_⟩
      have hcomma : Scan.step ⟨args, 0, some pair.1, spaced, false⟩ ',' =
          ⟨OrderedDict.insert args pair.1 value, 0, none, [], false⟩ := by
        rw [step_comma rfl rfl, hclose]
      rw [List.foldl_append, hfold, List.foldl_cons, hcomma, hrest]
      rfl

/-- What is printed, with any blanks, is read back: the dictionary gets the pairs in their order. -/
theorem parseDirectiveArgs_printed {β : Type} {prints : β → Text → Prop} {pairs : List (Text × β)} {text : Text}
    (hprinted : Separated.Printed isSpace ',' (PrintsPair prints) pairs text) (hkeys : ∀ pair ∈ pairs, IsWord pair.1)
    (hvalues : ∀ pair ∈ pairs, ∀ value, prints pair.2 value → IsValue value) :
    ∃ raws, List.Forall₂ (ReadsPair prints) pairs raws ∧ parseDirectiveArgs text = OrderedDict.assign [] raws := by
  have htrim := hprinted.trim (fun pair hpair core hcore => hcore.trimmed (hkeys pair hpair) fun value hprints =>
    ⟨(hvalues pair hpair value hprints).trimmed, (hvalues pair hpair value hprints).nonempty⟩) (by decide)
  obtain ⟨raws, hraws, hfold⟩ := foldl_printed htrim hkeys hvalues []
  refine ⟨raws, hraws, ?_⟩
  unfold parseDirectiveArgs
  dsimp only
  rw [strip_eq]
  split_ifs with hnil
  · rw [← hfold, hnil]
    rfl
  · exact hfold

theorem content_line {start : String} {text : Text} (hne : text ≠ []) (hline : '\n' ∉ text) :
    content start (start.toList ++ (text ++ [')'])) = some text := by
  have hstart : startsWith start (start.toList ++ (text ++ [')'])) = true :=
    AssemblyWriter.startsWith_iff.mpr (List.prefix_append _ _)
  have hkeep : ∀ c ∈ text ++ [')'], decide (c ≠ '\n') = true := by
    intro c hc
    refine decide_eq_true ?_
    rintro rfl
    exact (List.mem_append.mp hc).elim hline fun hmem => absurd (List.mem_singleton.mp hmem) (by decide)
  unfold content
  rw [if_pos hstart, List.drop_left]
  dsimp only
  rw [List.takeWhile_eq_self_iff.mpr hkeep, List.reverse_append, List.reverse_singleton, List.singleton_append,
    List.dropWhile_cons_of_neg (by decide)]
  dsimp only
  rw [if_neg (mt List.reverse_eq_nil_iff.mp hne), List.reverse_reverse]

/-! ### Fixed spacing -/

structure IsArg (arg : Text × Text) : Prop where
  key : IsWord arg.1
  value : IsValue arg.2

/-- A pair that is written out is a printed pair. -/
theorem printed_renderArgs (pairs : List (Text × Text)) :
    Separated.Printed isSpace ',' (PrintsPair fun value text => text = value) pairs (renderArgs pairs) := by
  have hpair : ∀ pair : Text × Text, PrintsPair (fun value text => text = value) pair (renderArg pair) := fun pair =>
    ⟨[], [], pair.2, Separated.blanks_nil, Separated.blanks_nil, rfl, by rw [List.append_nil]; rfl⟩
  induction pairs with
  | nil => exact .nil
  | cons pair rest ih =>
      cases rest with
      | nil => exact .single (hpair pair) (Separated.around_self _)
      | cons next rest => exact .cons (hpair pair) (Separated.around_self _) (ih.blank_cons nofun (by decide))

/-- What is written out is read back. -/
theorem parseDirectiveArgs_renderArgs {pairs : List (Text × Text)} (hpairs : ∀ arg ∈ pairs, IsArg arg)
    (hnodup : (pairs.map Prod.fst).Nodup) : parseDirectiveArgs (renderArgs pairs) = pairs := by
  obtain ⟨raws, hraws, hparse⟩ := parseDirectiveArgs_printed (printed_renderArgs pairs) (fun arg harg => (hpairs arg harg).key)
    (by rintro arg harg _ rfl; exact (hpairs arg harg).value)
  have heq : pairs = raws := List.forall₂_eq_eq_eq ▸ hraws.imp fun arg raw h => Prod.ext h.1.symm h.2.symm
  rw [hparse, ← heq, OrderedDict.assign_eq_append hnodup, List.nil_append]

theorem renderArgs_ne_nil {pairs : List (Text × Text)} (hne : pairs ≠ []) : renderArgs pairs ≠ [] := by
  have hpair : ∀ pair : Text × Text, renderArg pair ≠ [] := fun pair => List.append_ne_nil_of_right_ne_nil _ nofun
  cases pairs with
  | nil => exact absurd rfl hne
  | cons pair rest =>
      cases rest with
      | nil => exact hpair pair
      | cons next rest => exact List.append_ne_nil_of_left_ne_nil (hpair pair) _

/-! ### Numbers -/

theorem exists_digitChar {base : ℕ} (hbase : 1 < base) {n : ℕ} {c : Char} (hc : c ∈ Nat.toDigits base n) :
    ∃ digit < base, c = Nat.digitChar digit := by
  induction n using Nat.strongRecOn with
  | ind n ih =>
      rw [Nat.toDigits_eq_if hbase] at hc
      split_ifs at hc with hlt
      · exact ⟨n, hlt, List.mem_singleton.mp hc⟩
      · rcases List.mem_append.mp hc with hfront | hlast
        · exact ih (n / base) (Nat.div_lt_self (by omega) hbase) hfront
        · exact ⟨n % base, Nat.mod_lt n (by omega), List.mem_singleton.mp hlast⟩

theorem toDigits_isWord {base : ℕ} (hbase : 1 < base) (hsixteen : base ≤ 16) (n : ℕ) : IsWord (Nat.toDigits base n) := by
  refine ⟨Nat.toDigits_ne_nil, List.all_eq_true.mpr fun c hc => ?_⟩
  obtain ⟨digit, hdigit, rfl⟩ := exists_digitChar hbase hc
  exact (by decide : ∀ digit < 16, isWordChar (Nat.digitChar digit) = true) digit (Nat.lt_of_lt_of_le hdigit hsixteen)

theorem decimal_isWord (number : ℤ) : IsWord (decimal number) := by
  have hdigits := toDigits_isWord (by decide : 1 < 10) (by decide) number.natAbs
  unfold decimal
  split_ifs
  · exact @IsWord.append ['-'] _ ⟨nofun, by decide⟩ hdigits
  · exact hdigits

theorem hex_isWord (number : ℤ) : IsWord (hex number) := by
  have hdigits := toDigits_isWord (by decide : 1 < 16) (by decide) number.natAbs
  unfold hex
  split_ifs
  · exact IsWord.append ⟨by decide, by decide⟩ hdigits
  · exact IsWord.append ⟨by decide, by decide⟩ hdigits

/-- Digits without separators are one group. -/
theorem splitOn_toDigits (n : ℕ) : (Nat.toDigits 10 n).splitOn '_' = [Nat.toDigits 10 n] := by
  rw [List.splitOn, List.splitOnP_eq_singleton]
  intro c hc
  exact beq_eq_false_iff_ne.mpr fun heq => Nat.underscore_not_in_toDigits (heq ▸ hc)

theorem digits_toDigits (n : ℕ) : digits (Nat.toDigits 10 n) = some n := by
  have hgroup : [Nat.toDigits 10 n].all (fun group => !group.isEmpty && group.all Char.isDigit) = true := by
    rw [List.all_cons, List.all_nil, Bool.and_true, Bool.and_eq_true]
    exact ⟨by simp [Nat.toDigits_ne_nil],
      List.all_eq_true.mpr fun c hc => Nat.isDigit_of_mem_toDigits (by decide) (by decide) hc⟩
  rw [digits, splitOn_toDigits, if_pos hgroup, List.flatten_singleton, Nat.ofDigitChars_ten_toDigits]

theorem int_decimal (number : ℤ) : int (decimal number) = some number := by
  rw [int, (decimal_isWord number).trimmed.strip, decimal]
  split_ifs with hneg
  · show (digits (Nat.toDigits 10 number.natAbs)).map (fun n : ℕ => -(n : ℤ)) = some number
    rw [digits_toDigits, Option.map_some]
    congr 1
    omega
  · have hfirst : ∀ sign : Char, ¬ sign.isDigit → ∀ unsigned, Nat.toDigits 10 number.natAbs ≠ sign :: unsigned := by
      intro sign hsign unsigned heq
      have hmem : sign ∈ Nat.toDigits 10 number.natAbs := heq ▸ List.mem_cons_self
      exact hsign (Nat.isDigit_of_mem_toDigits (by decide) (by decide) hmem)
    split
    · next unsigned heq => exact absurd heq (hfirst '-' (by decide) unsigned)
    · next unsigned heq => exact absurd heq (hfirst '+' (by decide) unsigned)
    · rw [digits_toDigits, Option.map_some]
      congr 1
      omega

/-! ### Optional pairs -/

/-- The pairs of the entries that have a value. -/
def argsOf (entries : List (String × Option Text)) : List (Text × Text) :=
  entries.filterMap fun entry => entry.2.map fun value => (entry.1.toList, value)

theorem mem_argsOf {entries : List (String × Option Text)} {arg : Text × Text} :
    arg ∈ argsOf entries ↔ ∃ key, (key, some arg.2) ∈ entries ∧ key.toList = arg.1 := by
  rw [argsOf, List.mem_filterMap]
  constructor
  · rintro ⟨⟨key, value⟩, hmem, hmap⟩
    obtain ⟨value, rfl, rfl⟩ := Option.map_eq_some_iff.mp hmap
    exact ⟨key, hmem, rfl⟩
  · rintro ⟨key, hmem, hkey⟩
    exact ⟨(key, some arg.2), hmem, by rw [Option.map_some, hkey]⟩

theorem keys_argsOf (entries : List (String × Option Text)) :
    ((argsOf entries).map Prod.fst).Sublist (entries.map fun entry => entry.1.toList) := by
  induction entries with
  | nil => exact List.Sublist.slnil
  | cons entry entries ih =>
      obtain ⟨key, _ | value⟩ := entry
      · exact ih.cons _
      · exact ih.cons_cons _

/-- An entry is found under its key. -/
theorem get?_argsOf {entries : List (String × Option Text)} (hnodup : (entries.map Prod.fst).Nodup) {key : String}
    {value : Option Text} (hmem : (key, value) ∈ entries) : OrderedDict.get? (argsOf entries) key.toList = value := by
  have hkeys : ((argsOf entries).map Prod.fst).Nodup := by
    apply (keys_argsOf entries).nodup
    have hmap := hnodup.map (fun _ _ => String.toList_inj.mp : Function.Injective String.toList)
    rwa [List.map_map] at hmap
  cases value with
  | some value =>
      have harg : (key.toList, value) ∈ argsOf entries := mem_argsOf.mpr ⟨key, hmem, rfl⟩
      exact OrderedDict.get?_of_mem hkeys harg
  | none =>
      rw [OrderedDict.get?_eq_none]
      intro hkey
      obtain ⟨arg, harg, hfst⟩ := List.mem_map.mp hkey
      obtain ⟨key', hmem', hkey'⟩ := mem_argsOf.mp harg
      obtain rfl := String.toList_inj.mp (hkey'.trans hfst)
      exact absurd (Prod.mk.inj (List.inj_on_of_nodup_map hnodup hmem hmem' rfl)).2 nofun

theorem newline_notMem_renderArgs {pairs : List (Text × Text)} (hpairs : ∀ arg ∈ pairs, IsArg arg) :
    '\n' ∉ renderArgs pairs := by
  have hrender : ∀ arg, IsArg arg → '\n' ∉ renderArg arg := by
    intro arg harg
    rw [renderArg, List.mem_append, List.mem_cons, not_or, not_or]
    exact ⟨harg.key.isValue.line, by decide, harg.value.line⟩
  induction pairs with
  | nil => exact List.not_mem_nil
  | cons arg rest ih =>
      obtain ⟨harg, hrest⟩ := List.forall_mem_cons.mp hpairs
      cases rest with
      | nil => exact hrender arg harg
      | cons next rest =>
          rw [renderArgs, List.mem_append, List.mem_cons, List.mem_cons, not_or, not_or, not_or]
          · exact ⟨hrender arg harg, by decide, by decide, ih hrest⟩
          · exact nofun

/-! ### Characters of the arguments -/

/-- What the scan has is made of these characters. -/
structure Scan.Within (chars : Char → Prop) (s : Scan) : Prop where
  args : ∀ arg ∈ s.args, ∀ c ∈ arg.2, chars c
  currentValue : ∀ c ∈ s.currentValue, chars c

theorem mem_of_mem_strip {text : Text} {c : Char} (h : c ∈ strip text) : c ∈ text := by
  have hrev := List.mem_reverse.mp h
  have hback := (List.dropWhile_sublist isSpace).subset hrev
  exact (List.dropWhile_sublist isSpace).subset (List.mem_reverse.mp hback)

theorem Scan.Within.close {chars : Char → Prop} {s : Scan} (h : s.Within chars) : ∀ arg ∈ s.close, ∀ c ∈ arg.2, chars c := by
  unfold Scan.close
  split
  · exact h.args
  · split_ifs
    · exact h.args
    · intro arg harg c hc
      rcases OrderedDict.eq_or_mem_of_mem_insert harg with hmem | rfl
      · exact h.args arg hmem c hc
      · exact h.currentValue c (mem_of_mem_strip hc)

theorem Scan.Within.push {chars : Char → Prop} {s : Scan} (h : s.Within chars) {c : Char} (hc : chars c) :
    (s.push c).Within chars where
  args := h.args
  currentValue c' hc' := by
    rcases List.mem_append.mp hc' with hmem | hmem
    · exact h.currentValue c' hmem
    · exact List.mem_singleton.mp hmem ▸ hc

theorem Scan.Within.step {chars : Char → Prop} {s : Scan} (h : s.Within chars) {c : Char} (hc : chars c) :
    (s.step c).Within chars := by
  have hpush := h.push hc
  unfold Scan.step
  split_ifs
  · exact ⟨hpush.args, hpush.currentValue⟩
  · exact hpush
  · exact ⟨hpush.args, hpush.currentValue⟩
  · exact ⟨hpush.args, hpush.currentValue⟩
  · exact ⟨h.args, nofun⟩
  · exact ⟨h.close, nofun⟩
  · exact hpush

/-- The values are made of the characters of the text. -/
theorem mem_parseDirectiveArgs {text : Text} {arg : Text × Text} (harg : arg ∈ parseDirectiveArgs text) {c : Char}
    (hc : c ∈ arg.2) : c ∈ text := by
  unfold parseDirectiveArgs at harg
  dsimp only at harg
  split_ifs at harg
  · cases harg
  · have hwithin : ∀ (rest : Text) (s : Scan), (∀ c ∈ rest, c ∈ text) → s.Within (· ∈ text) →
        (rest.foldl Scan.step s).Within (· ∈ text) := by
      intro rest
      induction rest with
      | nil => exact fun s _ h => h
      | cons c rest ih =>
          intro s hrest h
          exact ih _ (fun c' hc' => hrest c' (List.mem_cons_of_mem _ hc')) (h.step (hrest c List.mem_cons_self))
    exact (hwithin (strip text) ⟨[], 0, none, [], false⟩ (fun c hc => mem_of_mem_strip hc) ⟨nofun, nofun⟩).close arg harg c hc

theorem newline_notMem_content {start : String} {line captured : Text} (h : content start line = some captured) :
    '\n' ∉ captured := by
  intro hmem
  unfold content at h
  split_ifs at h
  dsimp only at h
  split at h
  · cases h
  · next hrest =>
      split_ifs at h
      obtain rfl := Option.some.inj h
      have hsuffix := (List.dropWhile_sublist _).subset (hrest ▸ List.mem_cons_of_mem _ (List.mem_reverse.mp hmem))
      have hkept := List.mem_takeWhile_imp (List.mem_reverse.mp hsuffix)
      exact of_decide_eq_true hkept rfl

/-! ### Numbers by their digits -/

theorem toDigits_inj {base : ℕ} (hbase : 1 < base) (hsixteen : base ≤ 16) {m n : ℕ}
    (h : Nat.toDigits base m = Nat.toDigits base n) : m = n := by
  have hdigit : ∀ i < 16, ∀ j < 16, i.digitChar = j.digitChar → i = j := by decide
  have hlong : ∀ {i j : ℕ}, i < base → ¬ j < base → Nat.toDigits base i ≠ Nat.toDigits base j := by
    intro i j hi hj heq
    have hlength := congrArg List.length heq
    have hpos := @Nat.length_toDigits_pos base (j / base)
    rw [Nat.toDigits_eq_if hbase, if_pos hi, Nat.toDigits_eq_if hbase, if_neg hj, List.length_append, List.length_singleton,
      List.length_singleton] at hlength
    omega
  induction m using Nat.strongRecOn generalizing n with
  | _ m ih =>
      by_cases hm : m < base
      · by_cases hn : n < base
        · rw [Nat.toDigits_of_lt_base hm, Nat.toDigits_of_lt_base hn] at h
          exact hdigit m (by omega) n (by omega) (List.singleton_inj.mp h)
        · exact absurd h (hlong hm hn)
      · by_cases hn : n < base
        · exact absurd h.symm (hlong hn hm)
        · have hmod : ∀ k, k % base < 16 := fun k => Nat.lt_of_lt_of_le (Nat.mod_lt k (by omega)) hsixteen
          rw [Nat.toDigits_eq_if hbase, if_neg hm, Nat.toDigits_eq_if hbase (n := n), if_neg hn] at h
          obtain ⟨hfront, hlast⟩ := List.append_inj' h rfl
          have hdiv := ih (m / base) (Nat.div_lt_self (by omega) hbase) hfront
          have hmods := hdigit _ (hmod m) _ (hmod n) (List.singleton_inj.mp hlast)
          calc m = base * (m / base) + m % base := (Nat.div_add_mod m base).symm
            _ = base * (n / base) + n % base := by rw [hdiv, hmods]
            _ = n := Nat.div_add_mod n base

theorem decimal_inj {m n : ℤ} (h : decimal m = decimal n) : m = n :=
  Option.some.inj ((int_decimal m).symm.trans ((congrArg int h).trans (int_decimal n)))

end Riescue.DirectiveArgs
