/-
Labels of drawings can be read back.

A node may be called anything: its operation and the names among its operands may
hold quotes, backslashes and line breaks. Its label in a drawing still ends where
it is meant to, and stands for what the node shows (`Dot.label_read_back`).

A label is put together from pieces, each of which stands for a piece of text
wherever in a label it is met (`Text.StandsFor`): escaped characters, the break
between the two lines, and whatever is made of such pieces.
-/
import LoopBounds.Dot

namespace LoopBounds

namespace Text

/-- The characters stand for the text in every label: the closing quote is not among them, and
reading goes on behind them. -/
structure StandsFor (written text : List Char) : Prop where
  scan : ∀ rest, scanLabel (written ++ rest) =
    (scanLabel rest).map fun (label, after) => (written ++ label, after)
  decode : ∀ rest, decodeLabel (written ++ rest) = (decodeLabel rest).map (text ++ ·)

namespace StandsFor

theorem nil : StandsFor [] [] where
  scan rest := by simp
  decode rest := by simp

theorem append {written written' text text' : List Char} (h : StandsFor written text)
    (h' : StandsFor written' text') : StandsFor (written ++ written') (text ++ text') where
  scan rest := by simp [h.scan, h'.scan, Function.comp_def]
  decode rest := by simp [h.decode, h'.decode, Function.comp_def]

/-- Whatever follows, the closing quote is the one behind the characters. -/
theorem scan_quote {written text : List Char} (h : StandsFor written text) (after : List Char) :
    scanLabel (written ++ '"' :: after) = some (written, after) := by
  rw [h.scan, scanLabel_quote]
  simp

theorem decode_eq {written text : List Char} (h : StandsFor written text) :
    decodeLabel written = some text := by
  have hend := h.decode []
  rwa [List.append_nil, decodeLabel, Option.map_some, List.append_nil] at hend

end StandsFor

/-- A backslash and the character that it takes for itself. -/
theorem standsFor_escape {c d : Char} (h : unescapeLabel? c = some d) :
    StandsFor ['\\', c] [d] where
  scan rest := by simp
  decode rest := by cases hrest : decodeLabel rest <;> simp [h, hrest]

theorem standsFor_plain {c : Char} (hquote : c ≠ '"') (hslash : c ≠ '\\') : StandsFor [c] [c] where
  scan := scanLabel_plain hquote hslash
  decode := decodeLabel_plain hslash

theorem standsFor_labelChar (c : Char) : StandsFor (labelChar c) [c] := by
  unfold labelChar
  split
  · rename_i hslash
    rw [hslash]
    exact standsFor_escape rfl
  · split
    · rename_i hquote
      rw [hquote]
      exact standsFor_escape rfl
    · exact standsFor_plain ‹_› ‹_›

theorem standsFor_flatMap (text : List Char) : StandsFor (text.flatMap labelChar) text := by
  induction text with
  | nil => exact .nil
  | cons c text ih => exact (standsFor_labelChar c).append ih

theorem standsFor_escapeLabel (s : String) : StandsFor (escapeLabel s).toList s.toList := by
  rw [toList_escapeLabel]
  exact standsFor_flatMap s.toList

end Text

namespace Dot

open Text

/-- What a node shows: its text, and on a second line its interval if there is one and the style
asks for it. -/
def caption (style : Style) (node : Node) (interval? : Option Interval) : String :=
  match interval?, style.showBounds with
  | some interval, true => node.text ++ "\n" ++ interval.text
  | _, _ => node.text

/-- What follows the label in the line of a node. -/
def attributes (style : Style) (node : Node) (interval? : Option Interval) : String :=
  shape style node.target ++ fill style interval? ++ "];\n"

theorem standsFor_label (style : Style) (node : Node) (interval? : Option Interval) :
    StandsFor (label style node interval?).toList (caption style node interval?).toList := by
  have htext := standsFor_escapeLabel node.text
  cases interval? with
  | none => exact htext
  | some interval =>
    cases hshown : style.showBounds with
    | false =>
      simp only [label, caption, hshown]
      exact htext
    | true =>
      have hbreak : StandsFor "\\n".toList "\n".toList := standsFor_escape rfl
      simp only [label, caption, hshown, String.toList_append]
      exact (htext.append hbreak).append (standsFor_escapeLabel interval.text)

/-- **Labels can be read back.** In the line of a node, whatever the node, its interval and the
style, the label that starts behind the opening quote is closed by the quote written for that, and
not before, also if more text follows the line. It stands for what the node shows. -/
theorem label_read_back (style : Style) (node : Node) (interval? : Option Interval) :
    nodeLine style node interval? = "n" ++ toString node.id ++ " [label=" ++ "\"" ++
      label style node interval? ++ "\"" ++ attributes style node interval? ∧
    (∀ more : String, scanLabel (label style node interval? ++ "\"" ++
        attributes style node interval? ++ more).toList =
      some ((label style node interval?).toList,
        (attributes style node interval? ++ more).toList)) ∧
    decodeLabel (label style node interval?).toList =
      some (caption style node interval?).toList := by
  have hlabel := standsFor_label style node interval?
  refine ⟨?_, fun more => ?_, hlabel.decode_eq⟩
  · simp only [nodeLine, attributes, String.append_assoc]
    rfl
  · have hquote : "\"".toList = ['"'] := rfl
    simp only [String.toList_append, hquote, List.append_assoc, List.singleton_append]
    exact hlabel.scan_quote _

end Dot

end LoopBounds
