/-!
# Keyed lists

A list of keys and values in which the order of the keys matters.
-/

namespace EffectGraph.Keyed

/-- Sets the value of a key: a key that is there keeps its place, a new one
goes to the end. -/
def put [DecidableEq κ] (key : κ) (value : α) : List (κ × α) → List (κ × α)
  | [] => [(key, value)]
  | (k, v) :: rest => if k = key then (k, value) :: rest else (k, v) :: put key value rest

/-- The keyed list that a list of settings leaves. -/
def ofSettings [DecidableEq κ] (settings : List (κ × α)) : List (κ × α) :=
  settings.foldl (fun es (k, v) => put k v es) []

end EffectGraph.Keyed
