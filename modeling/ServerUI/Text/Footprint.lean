/-!
Memory that a text takes. All characters of a text take the same number of bytes, which the
widest of them fixes, after a header whose size depends on that width.
-/

set_option autoImplicit false

namespace ServerUI.Text

def storage (widest : Nat) : Nat × Nat :=
  if widest < 0x80 then (49, 1)
  else if widest < 0x100 then (73, 1)
  else if widest < 0x10000 then (74, 2)
  else (76, 4)

def footprint (s : String) : Nat :=
  let cs := s.toList
  let (header, width) := storage (cs.foldl (fun m c => max m c.toNat) 0)
  header + width * cs.length

end ServerUI.Text
