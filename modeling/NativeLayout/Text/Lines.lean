namespace NativeLayout.Text

/-!
# Lines

* `ofLines` — the text of some lines, each closed by a line break.
-/

/-- The text of some lines, each closed by a line break. -/
def ofLines (lines : List String) : String :=
  String.join (lines.map (· ++ "\n"))

end NativeLayout.Text
