import SourceSurvey.Syntax.Token

/-!
Reserved words. A word is reserved only where the grammar has a use for it; everywhere else the same
spelling is an ordinary name.
-/

namespace SourceSurvey.Syntax.Keyword

def and_ : Word := ['a', 'n', 'd']
def as_ : Word := ['a', 's']
def assert_ : Word := ['a', 's', 's', 'e', 'r', 't']
def async_ : Word := ['a', 's', 'y', 'n', 'c']
def await_ : Word := ['a', 'w', 'a', 'i', 't']
def break_ : Word := ['b', 'r', 'e', 'a', 'k']
def case_ : Word := ['c', 'a', 's', 'e']
def class_ : Word := ['c', 'l', 'a', 's', 's']
def continue_ : Word := ['c', 'o', 'n', 't', 'i', 'n', 'u', 'e']
def def_ : Word := ['d', 'e', 'f']
def del_ : Word := ['d', 'e', 'l']
def elif_ : Word := ['e', 'l', 'i', 'f']
def else_ : Word := ['e', 'l', 's', 'e']
def except_ : Word := ['e', 'x', 'c', 'e', 'p', 't']
def exec_ : Word := ['e', 'x', 'e', 'c']
def false_ : Word := ['F', 'a', 'l', 's', 'e']
def finally_ : Word := ['f', 'i', 'n', 'a', 'l', 'l', 'y']
def for_ : Word := ['f', 'o', 'r']
def from_ : Word := ['f', 'r', 'o', 'm']
def future_ : Word := ['_', '_', 'f', 'u', 't', 'u', 'r', 'e', '_', '_']
def global_ : Word := ['g', 'l', 'o', 'b', 'a', 'l']
def if_ : Word := ['i', 'f']
def import_ : Word := ['i', 'm', 'p', 'o', 'r', 't']
def in_ : Word := ['i', 'n']
def is_ : Word := ['i', 's']
def lambda_ : Word := ['l', 'a', 'm', 'b', 'd', 'a']
def match_ : Word := ['m', 'a', 't', 'c', 'h']
def none_ : Word := ['N', 'o', 'n', 'e']
def nonlocal_ : Word := ['n', 'o', 'n', 'l', 'o', 'c', 'a', 'l']
def not_ : Word := ['n', 'o', 't']
def or_ : Word := ['o', 'r']
def pass_ : Word := ['p', 'a', 's', 's']
def print_ : Word := ['p', 'r', 'i', 'n', 't']
def raise_ : Word := ['r', 'a', 'i', 's', 'e']
def return_ : Word := ['r', 'e', 't', 'u', 'r', 'n']
def true_ : Word := ['T', 'r', 'u', 'e']
def try_ : Word := ['t', 'r', 'y']
def type_ : Word := ['t', 'y', 'p', 'e']
def while_ : Word := ['w', 'h', 'i', 'l', 'e']
def with_ : Word := ['w', 'i', 't', 'h']
def yield_ : Word := ['y', 'i', 'e', 'l', 'd']

/-- The three constants. As operands they are values and cannot be assigned to. -/
def isConstant (w : Word) : Bool := w == true_ || w == false_ || w == none_

/-- Words that can stand only behind a complete operand of a line. -/
def isInfix (w : Word) : Bool :=
  w == if_ || w == and_ || w == or_ || w == in_ || w == is_ || w == as_

/-- Words that continue an expression after a complete operand. -/
def isOperator (w : Word) : Bool :=
  isInfix w || w == not_ || w == else_ || w == for_ || w == async_

end SourceSurvey.Syntax.Keyword
