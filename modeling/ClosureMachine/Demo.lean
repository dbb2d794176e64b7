import ClosureMachine.Tree.Basic

/-!
# Demonstration programs

Small programs that show one feature each. Every one comes with its source text and the value it ends
with.
-/

set_option autoImplicit false

namespace ClosureMachine

/-- A program with its text and the value it should give. -/
structure Demo where
  name : String
  source : String
  tree : Tree
  expected : Literal

namespace Demo

/-! ## Short spellings -/

/-- A number. -/
def num (n : Nat) : Tree := .literal (.number (.ofNat n))

/-- An application of a named function. -/
def apply (function : String) (arguments : List Tree) : Tree :=
  .application (.identifier function) arguments

/-- A named function with a body of several statements. -/
def function (name : String) (parameters : List String) (body : List Tree) : Tree :=
  .functionDeclaration name parameters (.sequence body)

/-- Statements in a scope of their own. -/
def braces (statements : List Tree) : Tree := .block (.sequence statements)

/-! ## The programs -/

/-- Operators. -/
def arithmetic : Demo where
  name := "arithmetic"
  source := "1 + 2 * 3 - 4;"
  tree := .binary "-" (.binary "+" (num 1) (.binary "*" (num 2) (num 3))) (num 4)
  expected := .number (.ofNat 3)

/-- A scope inside another. -/
def block : Demo where
  name := "block"
  source := "const y = 4; \x7b const x = y + 7; x * 2; \x7d"
  tree := .sequence
    [.declaration "y" (num 4) true,
      braces
        [.declaration "x" (.binary "+" (.identifier "y") (num 7)) true,
          .binary "*" (.identifier "x") (num 2)]]
  expected := .number (.ofNat 22)

/-- Recursion that leaves work to be done. -/
def fact : Demo where
  name := "fact"
  source :=
    "function fact(n) \x7b return n === 1 ? 1 : n * fact(n - 1); \x7d fact(4);"
  tree := .sequence
    [function "fact" ["n"]
        [.ret (.conditional (.binary "===" (.identifier "n") (num 1)) (num 1)
          (.binary "*" (.identifier "n") (apply "fact" [.binary "-" (.identifier "n") (num 1)])))],
      apply "fact" [num 4]]
  expected := .number (.ofNat 24)

/-- Recursion by tail calls. -/
def factIter : Demo where
  name := "fact_iter"
  source :=
    "function fact(n) \x7b return fact_iter(n, 1, 1); \x7d "
      ++ "function fact_iter(n, i, acc) \x7b "
      ++ "return i > n ? acc : fact_iter(n, i + 1, acc * i); \x7d "
      ++ "fact(5);"
  tree := .sequence
    [function "fact" ["n"] [.ret (apply "fact_iter" [.identifier "n", num 1, num 1])],
      function "fact_iter" ["n", "i", "acc"]
        [.ret (.conditional (.binary ">" (.identifier "i") (.identifier "n")) (.identifier "acc")
          (apply "fact_iter"
            [.identifier "n", .binary "+" (.identifier "i") (num 1),
              .binary "*" (.identifier "acc") (.identifier "i")]))],
      apply "fact" [num 5]]
  expected := .number (.ofNat 120)

/-- A return from inside a block. -/
def returnInBlock : Demo where
  name := "return_in_block"
  source :=
    "function f(x) \x7b if (true) \x7b const y = 2; return x + y; 44; \x7d "
      ++ "else \x7b 55; \x7d 66; \x7d f(1);"
  tree := .sequence
    [function "f" ["x"]
        [.conditional (.literal (.boolean true))
            (braces
              [.declaration "y" (num 2) true,
                .ret (.binary "+" (.identifier "x") (.identifier "y")), num 44])
            (braces [num 55]),
          num 66],
      apply "f" [num 1]]
  expected := .number (.ofNat 3)

/-- A function that remembers where it was made. -/
def closures : Demo where
  name := "closures"
  source :=
    "function make_adder(n) \x7b return x => x + n; \x7d const add5 = make_adder(5); add5(10);"
  tree := .sequence
    [function "make_adder" ["n"]
        [.ret (.lambda ["x"] (.ret (.binary "+" (.identifier "x") (.identifier "n"))))],
      .declaration "add5" (apply "make_adder" [num 5]) true,
      apply "add5" [num 10]]
  expected := .number (.ofNat 15)

/-- Many tail calls in a small heap. -/
def countdown : Demo where
  name := "countdown"
  source :=
    "function count(n, s) \x7b return n === 0 ? s : count(n - 1, s + 1); \x7d count(10000, 0);"
  tree := .sequence
    [function "count" ["n", "s"]
        [.ret (.conditional (.binary "===" (.identifier "n") (num 0)) (.identifier "s")
          (apply "count"
            [.binary "-" (.identifier "n") (num 1), .binary "+" (.identifier "s") (num 1)]))],
      apply "count" [num 10000, num 0]]
  expected := .number (.ofNat 10000)

/-- All demonstrations, in the order in which they are run. -/
def all : List Demo :=
  [arithmetic, block, fact, factIter, returnInBlock, closures, countdown]

/-- The demonstration of a name. -/
def find? (name : String) : Option Demo := all.find? (·.name = name)

end Demo

end ClosureMachine
