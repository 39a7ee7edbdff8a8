/-!
# The version of the library
-/

namespace PropertyTree

/-- The version that every part of the library carries. -/
def version : String := "0.1.0"

end PropertyTree
