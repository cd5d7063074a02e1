/-!
The names under which the program and its parts are released.
-/

set_option autoImplicit false

namespace Barrage.Release

def program : String := "bml"

def compiler : String := "bml_compiler"

def version : String := "0.1.0"

def profile : String := "development"

def summary : String := compiler ++ " " ++ version ++ " (" ++ profile ++ " profile)"

end Barrage.Release
