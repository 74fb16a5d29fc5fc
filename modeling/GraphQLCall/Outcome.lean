/-!
# Outcome: one failure among many steps

* `each`   the results of all items, or the first failure among them
* `all`   whether all items pass, or the first failure among them
-/

namespace GraphQLCall.Outcome

variable {ε α β : Type}

/-- **The results of all items,** or the first failure among them. -/
def each (f : α → Except ε β) : List α → Except ε (List β)
  | [] => .ok []
  | a :: rest =>
    match f a with
    | .error e => .error e
    | .ok b =>
      match each f rest with
      | .error e => .error e
      | .ok bs => .ok (b :: bs)

/-- **Whether all items pass,** or the first failure among them. -/
def all (f : α → Except ε Unit) : List α → Except ε Unit
  | [] => .ok ()
  | a :: rest =>
    match f a with
    | .error e => .error e
    | .ok () => all f rest

end GraphQLCall.Outcome
