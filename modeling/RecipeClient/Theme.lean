/-!
# Themes

Whether the user prefers a dark display.
-/

namespace RecipeClient

/-- The user's preference. -/
structure Theme where
  /-- Whether the display is dark. -/
  isDark : Bool := false
deriving DecidableEq, Inhabited

namespace Theme

/-- The other preference. -/
def toggle (theme : Theme) : Theme := ⟨!theme.isDark⟩

/-- The preference, and what it becomes with each of a number of changes. -/
def history (theme : Theme) : Nat → List Theme
  | 0 => [theme]
  | changes + 1 => theme :: history theme.toggle changes

end Theme

end RecipeClient
