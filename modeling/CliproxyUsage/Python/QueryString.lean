import CliproxyUsage.JavaScript.UrlSearchParams
import Mathlib.Data.List.SplitBy

/-! # Query strings

`urllib.parse.parse_qsl` with its blank values kept, as the server reads the query of a request. It reads
what `URLSearchParams` writes.
-/

namespace Python

open JavaScript

def isAscii (c : Char) : Bool := c.toNat < 128

/-- `unquote(s)`: escapes are decoded inside runs of ASCII characters, with broken UTF-8 replaced. -/
def unquote (chars : List Char) : List Char :=
  (chars.splitBy fun a b => isAscii a = isAscii b).flatMap fun run =>
    if run.all isAscii then Utf8.decode (percentDecode run) else run

/-- A name or a value, in which a `+` stands for a space. -/
def unquotePlus (chars : List Char) : String := String.ofList (unquote (chars.map plusToSpace))

/-- `parse_qsl(qs, keep_blank_values=True)`. -/
def parseQsl (qs : String) : List (String × String) :=
  ((qs.toList.splitOn '&').filter fun piece => piece ≠ []).map fun piece =>
    (unquotePlus (piece.takeWhile fun c => c ≠ '='), unquotePlus ((piece.dropWhile fun c => c ≠ '=').drop 1))

/-- Text of ASCII characters is one run. -/
theorem unquote_ascii {chars : List Char} (ascii : ∀ c ∈ chars, isAscii c = true) :
    unquote chars = Utf8.decode (percentDecode chars) := by
  cases chars with
  | nil => rfl
  | cons first rest =>
    have runs : (first :: rest).splitBy (fun a b => isAscii a = isAscii b) = [first :: rest] := by
      apply List.splitBy_of_isChain (List.cons_ne_nil _ _)
      apply List.Pairwise.isChain
      apply List.Pairwise.imp_of_mem _ (List.pairwise_of_forall fun _ _ => trivial)
      intro a b left right _
      simp [ascii a left, ascii b right]
    rw [unquote, runs, List.flatMap_singleton, if_pos (List.all_eq_true.mpr ascii)]

private theorem unquotePlus_encodeComponent (s : String) : unquotePlus (encodeComponent s) = s := by
  have ascii : ∀ c ∈ (encodeComponent s).map plusToSpace, isAscii c = true := by
    intro c mapped
    obtain ⟨written, member, rfl⟩ := List.mem_map.mp mapped
    rw [plusToSpace]
    split
    · rfl
    · exact decide_eq_true (encodeComponent_ascii member)
  rw [unquotePlus, unquote_ascii ascii]
  exact decodeComponent_encodeComponent s

/-- The server reads the pairs that the page wrote. -/
theorem parseQsl_toString (p : UrlSearchParams) : parseQsl p.toString = p.pairs := by
  rw [parseQsl, UrlSearchParams.splitOn_toString, List.map_map]
  refine (List.map_congr_left fun pair _ => ?_).trans (List.map_id _)
  simp only [Function.comp_apply, pairText_parts, unquotePlus_encodeComponent, id]

-- Characters outside of ASCII stand for themselves, and escapes beside them are still decoded.
example : parseQsl "a=%41é%42&&b=1+2=3&c" = [("a", "AéB"), ("b", "1 2=3"), ("c", "")] := by decide +kernel

end Python
