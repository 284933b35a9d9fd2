import Toolchain32.Yaml.Character
import Toolchain32.Yaml.Fault

/-!
# Ends of lines

A directive and the header of a block scalar end with their line, on which a comment may follow.
-/

namespace Toolchain32.Yaml

/-- What follows the end of a line on which only blanks and a comment may stand. -/
def passLineEnd (context : Context) (s : List Char) : Except Stop (List Char) :=
  let s := s.dropWhile isBlank
  let s := if s.head? == some '#' then s.dropWhile (fun c => !isBreak c) else s
  match s with
  | [] => .ok []
  | c :: rest => if isBreak c then .ok rest else .error ⟨.noLineEnd, context, c :: rest⟩

end Toolchain32.Yaml
