/-!
# Text: texts put together

* `join`   texts one after another with a separator between them
-/

namespace GraphQLCall.Text

/-- **Texts one after another,** with a separator between them. -/
def join (separator : String) : List String → String
  | [] => ""
  | [s] => s
  | s :: rest => s ++ separator ++ join separator rest

theorem join_cons_cons (separator s t : String) (rest : List String) :
    join separator (s :: t :: rest) = s ++ separator ++ join separator (t :: rest) := rfl

end GraphQLCall.Text
