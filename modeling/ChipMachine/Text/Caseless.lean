namespace ChipMachine.Text

/-- The Kelvin sign's lower case is the letter k. -/
def kelvin : Char := '\u212A'

/-- The lower case of a character, as far as it can be one ASCII character: apart from the capital
letters of ASCII only the Kelvin sign has such a lower case. -/
def foldCase (c : Char) : Char := if c = kelvin then 'k' else c.toLower

/-- The first value one of whose names is the text, case ignored. -/
def named? (names : List (String × α)) (s : List Char) : Option α :=
  (names.find? fun entry => entry.1.toList == s.map foldCase).map (·.2)

end ChipMachine.Text
