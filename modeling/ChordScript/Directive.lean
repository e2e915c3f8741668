import ChordScript.CompileError

namespace ChordScript

structure Directive where
  keyword : Keyword
  args : List Text
deriving DecidableEq

namespace Directive

def parse (body : Text) : Except LineError Directive :=
  let word := body.fields.headD []
  let args := body.fields.tail
  if word = [] then .error ⟨.emptyDirective, 0⟩
  else match Keyword.ofWord? word with
    | none => .error ⟨.unknownDirective word, 2⟩
    | some k =>
      if k.accepts args.length then .ok ⟨k, args⟩ else .error ⟨.argumentCount k args.length, 0⟩

/-- Without arguments the keyword stands alone; one empty argument leaves its blank. -/
def text (d : Directive) : Text :=
  if d.args = [] then d.keyword.text
  else d.keyword.text ++ [':', ' '] ++ Text.joinFields d.args

end Directive

end ChordScript
