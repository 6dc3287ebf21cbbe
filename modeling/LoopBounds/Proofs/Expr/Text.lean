/-
Written expressions can be told apart.

A negation is written without brackets, so `-5` is the negation of a constant and
a negative constant alike, and a symbol may be called `min` like the function.
None of this makes a text ambiguous (`Expr.text_unambiguous`): two expressions over
identifiers that are written alike are the same up to the spelling of negative
constants, hence have the same symbols, values and ranges.

* `Expr.spelled` turns negative constants into negations. This changes neither the
  text nor the meaning;
* a text starts with a word, which may be empty, and goes on with a sign or a
  bracket, or ends there (`Expr.toList_text`). Word and sign tell the kind of the
  expression;
* `Expr.eq_of_text_append` reads two expressions at once, by induction on the first.
  What follows them in a larger text starts with a blank, a comma or a bracket that
  closes (`Text.IsEnd`), and so never continues a word.
-/
import LoopBounds.Proofs.Expr.Symbols
import Std.Data.String.ToInt

namespace LoopBounds

namespace Text

/-! ### Words -/

/-- A letter of any alphabet; beyond ASCII every character counts as one. -/
def isLetter (c : Char) : Bool :=
  c.isAlpha || 0x80 ≤ c.toNat

/-- A character of an identifier. -/
def isWordChar (c : Char) : Bool :=
  isLetter c || c.isDigit || c == '_'

/-- A letter or an underscore, and then letters, digits and underscores. -/
def IsIdentifier (name : String) : Prop :=
  ∃ c rest, name.toList = c :: rest ∧ (isLetter c || c == '_') = true ∧ rest.all isWordChar = true

/-- The text is at its end, or goes on with a character that can stand behind an operand. -/
def IsEnd : List Char → Prop
  | [] => True
  | c :: _ => c = ' ' ∨ c = ',' ∨ c = ')'

theorem IsIdentifier.all_isWordChar {name : String} (h : IsIdentifier name) :
    ∀ c ∈ name.toList, isWordChar c = true := by
  obtain ⟨c, rest, hname, hc, hrest⟩ := h
  rw [hname]
  refine List.forall_mem_cons.2 ⟨?_, List.all_eq_true.1 hrest⟩
  rcases Bool.or_eq_true_iff.1 hc with hc | hc <;> simp [isWordChar, hc]

/-- No digit starts an identifier. -/
theorem not_isLetter_of_isDigit {c : Char} (h : c.isDigit = true) :
    (isLetter c || c == '_') = false := by
  have hdigit : c.val.toNat ≤ 57 := (Char.isDigit_iff_toNat.1 h).2
  have hupper : c.isUpper = false := by
    refine decide_eq_false fun hle => ?_
    have hle : 65 ≤ c.val.toNat := UInt32.le_iff_toNat_le.1 hle.1
    omega
  have hlower : c.isLower = false := by
    refine Bool.and_eq_false_imp.2 fun hle => ?_
    have hle : 97 ≤ c.val.toNat := UInt32.le_iff_toNat_le.1 (of_decide_eq_true hle)
    omega
  have halpha : c.isAlpha = false := Bool.or_eq_false_iff.2 ⟨hupper, hlower⟩
  have hascii : ¬ 0x80 ≤ c.toNat := by
    show ¬ 128 ≤ c.val.toNat
    omega
  have hne : c ≠ '_' := by
    rintro rfl
    exact absurd hdigit (by decide)
  simp only [isLetter, halpha, decide_eq_false hascii, Bool.or_self, Bool.false_or,
    beq_eq_false_iff_ne, hne, ne_eq, not_false_eq_true]

/-- No identifier is a number. -/
theorem IsIdentifier.ne_toDigits {name : String} (h : IsIdentifier name) (n : Nat) :
    name.toList ≠ Nat.toDigits 10 n := by
  obtain ⟨c, rest, hname, hc, -⟩ := h
  intro hdigits
  have hmem : c ∈ Nat.toDigits 10 n := by
    rw [← hdigits, hname]
    exact List.mem_cons_self
  rw [not_isLetter_of_isDigit (Nat.isDigit_of_mem_toDigits (by decide) (by decide) hmem)] at hc
  cases hc

theorem isEnd_comma (rest : List Char) : IsEnd (',' :: rest) :=
  Or.inr (Or.inl rfl)

theorem isEnd_close (rest : List Char) : IsEnd (')' :: rest) :=
  Or.inr (Or.inr rfl)

theorem isEnd_minus (rest : List Char) : ¬ IsEnd ('-' :: rest) := by
  simp [IsEnd]

theorem isEnd_open (rest : List Char) : ¬ IsEnd ('(' :: rest) := by
  simp [IsEnd]

/-- No word goes on with this text. -/
def Breaks (rest : List Char) : Prop :=
  ∀ c ∈ rest.head?, isWordChar c = false

theorem IsEnd.breaks {rest : List Char} (h : IsEnd rest) : Breaks rest := by
  cases rest with
  | nil => simp [Breaks]
  | cons c rest =>
    rintro _ ⟨⟩
    rcases h with rfl | rfl | rfl <;> decide

/-- A word and what follows it can be told from the text. -/
theorem word_append_inj {word word' rest rest' : List Char}
    (hword : ∀ c ∈ word, isWordChar c = true) (hword' : ∀ c ∈ word', isWordChar c = true)
    (hrest : Breaks rest) (hrest' : Breaks rest') (h : word ++ rest = word' ++ rest') :
    word = word' ∧ rest = rest' := by
  have htake : ∀ {word rest : List Char}, (∀ c ∈ word, isWordChar c = true) → Breaks rest →
      (word ++ rest).takeWhile isWordChar = word := by
    intro word rest hword hrest
    rw [List.takeWhile_append_of_pos hword]
    cases rest with
    | nil => simp
    | cons c rest => simp [hrest c rfl]
  have hsame : word = word' := by
    rw [← htake hword hrest, ← htake hword' hrest', h]
  exact ⟨hsame, List.append_cancel_left (hsame ▸ h)⟩

end Text

/-! ### The parts of a written expression -/

namespace Arith

/-- The name of the operation, if it is written as a function. -/
def word : Arith → String
  | .min => "min"
  | .max => "max"
  | _ => ""

/-- What stands between the operands. -/
def mark : Arith → String
  | .add => " + "
  | .sub => " - "
  | .mul => " * "
  | .floorDiv => " // "
  | .mod => " % "
  | .min | .max => ", "

theorem toList_text (op : Arith) (a b : String) : (op.text a b).toList =
    op.word.toList ++ '(' :: (a.toList ++ op.mark.toList ++ b.toList ++ [')']) := by
  cases op <;> simp [text, word, mark]

theorem isWordChar_word (op : Arith) : ∀ c ∈ op.word.toList, Text.isWordChar c = true := by
  rw [← List.all_eq_true]
  cases op <;> decide

theorem isEnd_mark (op : Arith) (rest : List Char) : Text.IsEnd (op.mark.toList ++ rest) := by
  cases op <;> simp [mark, Text.IsEnd]

/-- Name and mark tell the operation, and no mark is the beginning of another. -/
theorem eq_of_mark_append {op op' : Arith} {rest rest' : List Char}
    (hword : op.word.toList = op'.word.toList)
    (hmark : op.mark.toList ++ rest = op'.mark.toList ++ rest') : op = op' ∧ rest = rest' := by
  cases op <;> cases op' <;> simp_all [word, mark]

/-- An index with a modulus has a name of its own. -/
theorem word_ne_modularIndexing (op : Arith) :
    op.word.toList ≠ "ModularIndexing".toList := by
  cases op <;> decide

end Arith

namespace Expr

open Text

variable {e : Expr}

/-- The expression with negations in place of negative constants. -/
def spelled : Expr → Expr
  | .sym name => .sym name
  | .const n => if n < 0 then .neg (.const (-n)) else .const n
  | .neg e => .neg e.spelled
  | .binary op a b => .binary op a.spelled b.spelled
  | .modIndex e d m => .modIndex e.spelled d.spelled m.spelled

/-- The symbols are identifiers, and no constant is negative. -/
def IsReadable : Expr → Prop
  | .sym name => IsIdentifier name
  | .const n => 0 ≤ n
  | .neg e => e.IsReadable
  | .binary _ a b => a.IsReadable ∧ b.IsReadable
  | .modIndex e d m => e.IsReadable ∧ d.IsReadable ∧ m.IsReadable

/-- The word that the text starts with: a name, a number, or nothing. -/
def word : Expr → String
  | .sym name => name
  | .const n => toString n
  | .neg _ => ""
  | .binary op _ _ => op.word
  | .modIndex .. => "ModularIndexing"

/-- What follows the word: a sign or a bracket, or nothing. -/
def tail : Expr → List Char
  | .sym _ | .const _ => []
  | .neg e => '-' :: e.text.toList
  | .binary op a b =>
    '(' :: (a.text.toList ++ op.mark.toList ++ b.text.toList ++ [')'])
  | .modIndex e d m =>
    '(' :: (e.text.toList ++ [',', ' '] ++ d.text.toList ++ [',', ' '] ++ m.text.toList ++ [')'])

theorem toList_text (e : Expr) : e.text.toList = e.word.toList ++ e.tail := by
  cases e with
  | sym name => exact (List.append_nil _).symm
  | const n => exact (List.append_nil _).symm
  | neg e => exact String.toList_append
  | binary op a b => exact op.toList_text a.text b.text
  | modIndex e d m =>
    have hopen : "ModularIndexing(".toList = "ModularIndexing".toList ++ ['('] := by decide
    show ("ModularIndexing(" ++ e.text ++ ", " ++ d.text ++ ", " ++ m.text ++ ")").toList =
      "ModularIndexing".toList ++ '(' :: (e.text.toList ++ [',', ' '] ++ d.text.toList ++
        [',', ' '] ++ m.text.toList ++ [')'])
    simp only [String.toList_append, hopen, List.append_assoc, List.cons_append, List.nil_append]
    rfl

theorem toList_toString {n : Int} (h : 0 ≤ n) : (toString n).toList = Nat.toDigits 10 n.toNat := by
  rw [Int.toString_eq_repr, Int.repr_eq_if, if_pos h, Nat.repr_eq_ofList_toDigits,
    String.toList_ofList]

theorem isWordChar_word (h : e.IsReadable) : ∀ c ∈ e.word.toList, isWordChar c = true := by
  cases e with
  | sym name => exact IsIdentifier.all_isWordChar h
  | const n =>
    intro c hc
    rw [word, toList_toString h] at hc
    have hdigit : c.isDigit = true := Nat.isDigit_of_mem_toDigits (by decide) (by decide) hc
    simp [isWordChar, hdigit]
  | neg e => simp [word]
  | binary op a b => exact op.isWordChar_word
  | modIndex e d m =>
    have hall : "ModularIndexing".toList.all isWordChar = true := by decide
    exact List.all_eq_true.1 hall

theorem breaks_tail (e : Expr) {rest : List Char} (hrest : IsEnd rest) :
    Breaks (e.tail ++ rest) := by
  cases e with
  | sym name => exact hrest.breaks
  | const n => exact hrest.breaks
  | _ =>
    rintro _ ⟨⟩
    decide

/-! ### Two readings of a text -/

variable {e' : Expr} {rest rest' : List Char}

theorem parts_of_text_append (h : e.IsReadable) (h' : e'.IsReadable) (hrest : IsEnd rest)
    (hrest' : IsEnd rest') (htext : e.text.toList ++ rest = e'.text.toList ++ rest') :
    e.word.toList = e'.word.toList ∧ e.tail ++ rest = e'.tail ++ rest' := by
  rw [toList_text, toList_text, List.append_assoc, List.append_assoc] at htext
  exact word_append_inj (isWordChar_word h) (isWordChar_word h') (e.breaks_tail hrest)
    (e'.breaks_tail hrest') htext

/-- If one operand ends right after its word, so does the other. -/
theorem tail_eq_nil (hrest : IsEnd rest) (htail : e.tail ++ rest = e'.tail ++ rest')
    (hnil : e.tail = []) : e'.tail = [] := by
  rw [hnil, List.nil_append] at htail
  rw [htail] at hrest
  cases e' with
  | sym name => rfl
  | const n => rfl
  | neg e => exact absurd hrest (isEnd_minus _)
  | binary op a b => exact absurd hrest (isEnd_open _)
  | modIndex e d m => exact absurd hrest (isEnd_open _)

theorem tail_ne_nil (hrest' : IsEnd rest') (htail : e.tail ++ rest = e'.tail ++ rest')
    (hne : e.tail ≠ []) : e'.tail ≠ [] := by
  intro hnil
  exact hne (tail_eq_nil hrest' htail.symm hnil)

/-- Names and numbers are what they are written as. -/
theorem eq_of_word_eq (h : e.IsReadable) (h' : e'.IsReadable) (hnil : e.tail = [])
    (hnil' : e'.tail = []) (hword : e.word.toList = e'.word.toList) : e = e' := by
  cases e with
  | sym name =>
    cases e' with
    | sym name' => exact congrArg sym (String.toList_inj.1 hword)
    | const n => exact absurd (hword.trans (toList_toString h')) (IsIdentifier.ne_toDigits h _)
    | _ => cases hnil'
  | const n =>
    cases e' with
    | sym name =>
      exact absurd (hword.symm.trans (toList_toString h)) (IsIdentifier.ne_toDigits h' _)
    | const n' =>
      have hrepr : n.repr = n'.repr := String.toList_inj.1 hword
      exact congrArg const (Int.repr_inj.1 hrepr)
    | _ => cases hnil'
  | _ => cases hnil

/-- Two expressions that start a text in the same way, and end where an operand can end, are the
same. -/
theorem eq_of_text_append (h : e.IsReadable) (h' : e'.IsReadable) (hrest : IsEnd rest)
    (hrest' : IsEnd rest') (htext : e.text.toList ++ rest = e'.text.toList ++ rest') :
    e = e' ∧ rest = rest' := by
  induction e generalizing e' rest rest' with
  | sym name =>
    obtain ⟨hword, htail⟩ := parts_of_text_append h h' hrest hrest' htext
    have hnil : e'.tail = [] := tail_eq_nil hrest htail rfl
    rw [hnil] at htail
    exact ⟨eq_of_word_eq h h' rfl hnil hword, htail⟩
  | const n =>
    obtain ⟨hword, htail⟩ := parts_of_text_append h h' hrest hrest' htext
    have hnil : e'.tail = [] := tail_eq_nil hrest htail rfl
    rw [hnil] at htail
    exact ⟨eq_of_word_eq h h' rfl hnil hword, htail⟩
  | neg e ih =>
    obtain ⟨-, htail⟩ := parts_of_text_append h h' hrest hrest' htext
    have hcompound : e'.tail ≠ [] := tail_ne_nil hrest' htail (List.cons_ne_nil _ _)
    cases e' with
    | neg e' =>
      have hinner : e.text.toList ++ rest = e'.text.toList ++ rest' := (List.cons.inj htail).2
      have hbody : e'.IsReadable := h'
      obtain ⟨rfl, hsame⟩ := ih h hbody hrest hrest' hinner
      exact ⟨rfl, hsame⟩
    | sym name => exact absurd rfl hcompound
    | const n => exact absurd rfl hcompound
    | binary op a b => cases htail
    | modIndex e' d m => cases htail
  | binary op a b iha ihb =>
    obtain ⟨hword, htail⟩ := parts_of_text_append h h' hrest hrest' htext
    have hcompound : e'.tail ≠ [] := tail_ne_nil hrest' htail (List.cons_ne_nil _ _)
    cases e' with
    | binary op' a' b' =>
      have hinner : a.text.toList ++ (op.mark.toList ++ (b.text.toList ++ ')' :: rest)) =
          a'.text.toList ++ (op'.mark.toList ++ (b'.text.toList ++ ')' :: rest')) := by
        simpa [tail] using htail
      obtain ⟨rfl, hmark⟩ := iha h.1 h'.1 (op.isEnd_mark _) (op'.isEnd_mark _) hinner
      obtain ⟨rfl, hright⟩ := Arith.eq_of_mark_append hword hmark
      obtain ⟨rfl, hclose⟩ := ihb h.2 h'.2 (isEnd_close _) (isEnd_close _) hright
      exact ⟨rfl, (List.cons.inj hclose).2⟩
    | sym name => exact absurd rfl hcompound
    | const n => exact absurd rfl hcompound
    | neg e' => cases htail
    | modIndex e' d m => exact absurd hword op.word_ne_modularIndexing
  | modIndex e d m ihe ihd ihm =>
    obtain ⟨hword, htail⟩ := parts_of_text_append h h' hrest hrest' htext
    have hcompound : e'.tail ≠ [] := tail_ne_nil hrest' htail (List.cons_ne_nil _ _)
    cases e' with
    | modIndex e' d' m' =>
      have hinner : e.text.toList ++ ',' :: ' ' :: (d.text.toList ++ ',' :: ' ' ::
            (m.text.toList ++ ')' :: rest)) =
          e'.text.toList ++ ',' :: ' ' :: (d'.text.toList ++ ',' :: ' ' ::
            (m'.text.toList ++ ')' :: rest')) := by
        simpa [tail] using htail
      obtain ⟨rfl, hmark⟩ := ihe h.1 h'.1 (isEnd_comma _) (isEnd_comma _) hinner
      obtain ⟨rfl, hmark'⟩ := ihd h.2.1 h'.2.1 (isEnd_comma _) (isEnd_comma _)
        (List.cons.inj (List.cons.inj hmark).2).2
      obtain ⟨rfl, hclose⟩ := ihm h.2.2 h'.2.2 (isEnd_close _) (isEnd_close _)
        (List.cons.inj (List.cons.inj hmark').2).2
      exact ⟨rfl, (List.cons.inj hclose).2⟩
    | sym name => exact absurd rfl hcompound
    | const n => exact absurd rfl hcompound
    | neg e' => cases htail
    | binary op a b => exact absurd hword.symm op.word_ne_modularIndexing

theorem eq_of_text_eq (h : e.IsReadable) (h' : e'.IsReadable) (htext : e.text = e'.text) :
    e = e' := by
  have hend : IsEnd [] := trivial
  exact (eq_of_text_append h h' hend hend (by rw [htext])).1

/-! ### The spelling of negative constants -/

theorem text_spelled (e : Expr) : e.spelled.text = e.text := by
  induction e with
  | sym name => rfl
  | const n =>
    rw [spelled]
    split
    · rename_i hn
      show "-" ++ toString (-n) = toString n
      rw [Int.toString_eq_repr, Int.toString_eq_repr, Int.repr_eq_if, Int.repr_eq_if,
        if_pos (by omega), if_neg (by omega)]
    · rfl
  | neg e ih => exact congrArg ("-" ++ ·) ih
  | binary op a b iha ihb =>
    show op.text a.spelled.text b.spelled.text = op.text a.text b.text
    rw [iha, ihb]
  | modIndex e d m ihe ihd ihm =>
    show "ModularIndexing(" ++ e.spelled.text ++ ", " ++ d.spelled.text ++ ", " ++
      m.spelled.text ++ ")" = _
    rw [ihe, ihd, ihm]
    rfl

theorem occurrences_spelled (e : Expr) : e.spelled.occurrences = e.occurrences := by
  induction e with
  | sym name => rfl
  | const n =>
    rw [spelled]
    split <;> rfl
  | neg e ih => exact ih
  | binary op a b iha ihb => rw [spelled, occurrences, occurrences, iha, ihb]
  | modIndex e d m ihe ihd ihm => rw [spelled, occurrences, occurrences, ihe, ihd, ihm]

theorem eval?_spelled (values : Symbol → Option Int) (e : Expr) :
    e.spelled.eval? values = e.eval? values := by
  induction e with
  | sym name => rfl
  | const n =>
    rw [spelled]
    split
    · exact congrArg some (Int.neg_neg n)
    · rfl
  | neg e ih => rw [spelled, eval?, eval?, ih]
  | binary op a b iha ihb => rw [spelled, eval?, eval?, iha, ihb]
  | modIndex e d m ihe ihd ihm => rw [spelled, eval?, eval?, ihe, ihd, ihm]

theorem range_spelled (scope : Scope) (e : Expr) : e.spelled.range scope = e.range scope := by
  induction e with
  | sym name => rfl
  | const n =>
    rw [spelled]
    split
    · have hneg : (Bound.finite (- -n)) = .finite n := congrArg _ (Int.neg_neg n)
      exact Interval.ext hneg hneg
    · rfl
  | neg e ih => rw [spelled, range, range, ih]
  | binary op a b iha ihb => rw [spelled, range, range, iha, ihb]
  | modIndex e d m ihe ihd ihm => rw [spelled, range, range, ihe, ihd, ihm]

theorem isReadable_spelled (h : ∀ name ∈ e.occurrences, IsIdentifier name) :
    e.spelled.IsReadable := by
  induction e with
  | sym name => exact h name (List.mem_singleton_self name)
  | const n =>
    rw [spelled]
    split
    · rename_i hn
      show 0 ≤ -n
      omega
    · rename_i hn
      show 0 ≤ n
      omega
  | neg e ih => exact ih h
  | binary op a b iha ihb =>
    obtain ⟨ha, hb⟩ := List.forall_mem_append.1 h
    exact ⟨iha ha, ihb hb⟩
  | modIndex e d m ihe ihd ihm =>
    obtain ⟨hed, hm⟩ := List.forall_mem_append.1 h
    obtain ⟨he, hd⟩ := List.forall_mem_append.1 hed
    exact ⟨ihe he, ihd hd, ihm hm⟩

/-- **Written expressions are unambiguous.** If the symbols of two expressions are identifiers and
both are written alike, then they differ at most in how their negative constants are spelled: they
have the same symbols, the same value under every assignment, and the same range in every scope. -/
theorem text_unambiguous (hnames : ∀ name ∈ e.symbols, IsIdentifier name)
    (hnames' : ∀ name ∈ e'.symbols, IsIdentifier name) (htext : e.text = e'.text) :
    e.spelled = e'.spelled ∧ e.symbols = e'.symbols ∧
      (∀ values, e.eval? values = e'.eval? values) ∧ ∀ scope, e.range scope = e'.range scope := by
  have hspelled : e.spelled = e'.spelled := by
    refine eq_of_text_eq (isReadable_spelled fun name hname => hnames name (mem_symbols.2 hname))
      (isReadable_spelled fun name hname => hnames' name (mem_symbols.2 hname)) ?_
    rw [text_spelled, text_spelled, htext]
  refine ⟨hspelled, ?_, fun values => ?_, fun scope => ?_⟩
  · rw [symbols, symbols, ← occurrences_spelled, hspelled, occurrences_spelled]
  · rw [← eval?_spelled, hspelled, eval?_spelled]
  · rw [← range_spelled, hspelled, range_spelled]

/-- A symbol named like the function, and two ways to write `--5`. -/
theorem text_unambiguous_signs :
    let e : Expr := min (.sym "min") (.neg (.const (-5)))
    let e' : Expr := min (.sym "min") (.neg (.neg 5))
    e.text = "min(min, --5)" ∧ e'.text = "min(min, --5)" ∧ e ≠ e' ∧
      ∀ scope, e.range scope = e'.range scope := by
  intro e e'
  have hmin : IsIdentifier "min" := ⟨'m', ['i', 'n'], rfl, rfl, rfl⟩
  have hnames : ∀ f ∈ [e, e'], ∀ name ∈ f.symbols, IsIdentifier name := by
    intro f hf name hname
    have hmem : name ∈ ["min"] := by
      rcases List.mem_pair.1 hf with rfl | rfl <;> exact mem_symbols.1 hname
    rw [List.mem_singleton.1 hmem]
    exact hmin
  have htext : e.text = "min(min, --5)" := by decide
  have htext' : e'.text = "min(min, --5)" := by decide
  have hsame := text_unambiguous (hnames e (by simp)) (hnames e' (by simp))
    (htext.trans htext'.symm)
  exact ⟨htext, htext', by decide, hsame.2.2.2⟩

end Expr

end LoopBounds
