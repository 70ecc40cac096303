import Mathlib.Data.List.Basic

/-! Redo logs: records appended in order, of which the prefix that ends in the last
commit record survives a crash and the newest surviving record of a key wins. -/

namespace RustSql.Foundation.RedoLog

universe u v

variable {Record : Type u} {Key : Type v} [DecidableEq Key] (key : Record → Key)

/-- The newest record of `target`. -/
def latest : List Record → Key → Option Record
  | [], _ => none
  | record :: rest, target =>
    (latest rest target).or (if key record = target then some record else none)

@[simp]
theorem latest_nil (target : Key) : latest key [] target = none := rfl

theorem latest_append (front back : List Record) (target : Key) :
    latest key (front ++ back) target =
      (latest key back target).or (latest key front target) := by
  induction front with
  | nil => simp
  | cons record rest ih => simp [latest, ih, Option.or_assoc]

theorem latest_concat (log : List Record) (record : Record) (target : Key) :
    latest key (log ++ [record]) target =
      if key record = target then some record else latest key log target := by
  rw [latest_append]
  by_cases same : key record = target <;> simp [latest, same]

end RustSql.Foundation.RedoLog
