/-!
# Cutting texts

* `Text.before`, `Text.after`: the two sides of the first occurrence of a character;
* `Text.before_append_cons`, `Text.after_append_cons`: those of a text that is put together.
-/

namespace QueryFilter.Text

/-- The part of a text before the first occurrence of a character; the whole text if there is
none. -/
def before (c : Char) (cs : List Char) : List Char :=
  cs.takeWhile (· ≠ c)

/-- The part of a text behind the first occurrence of a character; nothing if there is none. -/
def after (c : Char) (cs : List Char) : List Char :=
  (cs.dropWhile (· ≠ c)).drop 1

theorem before_append_cons {c : Char} {cs : List Char} (h : c ∉ cs) (rest : List Char) :
    before c (cs ++ c :: rest) = cs := by
  induction cs with
  | nil => simp [before]
  | cons d cs ih =>
    have hd : d ≠ c := fun e => h (e ▸ List.mem_cons_self)
    simp only [before, List.cons_append, List.takeWhile_cons, hd, decide_true, ne_eq,
      not_false_eq_true, if_true]
    exact congrArg (d :: ·) (ih fun hm => h (List.mem_cons_of_mem _ hm))

theorem after_append_cons {c : Char} {cs : List Char} (h : c ∉ cs) (rest : List Char) :
    after c (cs ++ c :: rest) = rest := by
  induction cs with
  | nil => simp [after]
  | cons d cs ih =>
    have hd : d ≠ c := fun e => h (e ▸ List.mem_cons_self)
    simp only [after, List.cons_append, List.dropWhile_cons, hd, decide_true, ne_eq,
      not_false_eq_true, if_true]
    exact ih fun hm => h (List.mem_cons_of_mem _ hm)

end QueryFilter.Text
