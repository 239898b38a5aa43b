/-! Finite maps, kept as pairs in the order in which the keys first came. -/
namespace Gcode

abbrev Table (Key α : Type) := List (Key × α)

namespace Table
variable {Key α : Type} [DecidableEq Key]

def get? : Table Key α → Key → Option α
  | [], _ => none
  | (k, v) :: t, key => if k = key then some v else get? t key

def put : Table Key α → Key → α → Table Key α
  | [], key, value => [(key, value)]
  | (k, v) :: t, key, value => if k = key then (key, value) :: t else (k, v) :: put t key value

def erase : Table Key α → Key → Table Key α
  | [], _ => []
  | (k, v) :: t, key => if k = key then erase t key else (k, v) :: erase t key

def ofList (pairs : List (Key × α)) : Table Key α := pairs.foldl (fun t p => put t p.1 p.2) []

theorem get?_put (t : Table Key α) (key key' : Key) (value : α) :
    (t.put key value).get? key' = if key = key' then some value else t.get? key' := by
  induction t with
  | nil => rfl
  | cons p t ih =>
    simp only [put]
    split <;> grind [get?]

theorem get?_erase (t : Table Key α) (key key' : Key) :
    (t.erase key).get? key' = if key = key' then none else t.get? key' := by
  induction t with
  | nil => simp [erase, get?]
  | cons p t ih =>
    simp only [erase]
    split <;> grind [get?]

end Table
end Gcode
