import RecipeClient.Json.Codec

/-!
# Ingredient parsers

The ways in which the server can take an ingredient apart.
-/

namespace RecipeClient

open Json (Codec)

/-- How the server takes an ingredient apart. -/
inductive Parser where
  /-- By a language model trained on ingredients. -/
  | nlp
  /-- By fixed rules. -/
  | brute
  /-- By a general language model. -/
  | openai
deriving DecidableEq

namespace Parser

instance : Inhabited Parser := ⟨.nlp⟩

def name : Parser → String
  | .nlp => "nlp"
  | .brute => "brute"
  | .openai => "openai"

def all : List Parser :=
  [.nlp, .brute, .openai]

def codec : Codec Parser := .named all name

end Parser

end RecipeClient
