import TokenTariff.Tariff.Table
/-!
# The bundled price list

The rates of widely used models as they were when the program was made. They serve when no price
list can be had from anywhere else.
-/

namespace TokenTariff
set_option autoImplicit false

/-- The published rates of the bundled price list. -/
def bundledRates : List (String × Rates) :=
  [ ("anthropic.claude-3-5-haiku-20241022-v1:0",
      { input := 8e-07, output := 4e-06, cacheWrite := 1e-06, cacheRead := 8e-08 }),
    ("anthropic.claude-3-5-sonnet-20241022-v2:0",
      { input := 3e-06, output := 1.5e-05, cacheWrite := 3.75e-06, cacheRead := 3e-07 }),
    ("anthropic.claude-3-7-sonnet-20250219-v1:0",
      { input := 3e-06, output := 1.5e-05, cacheWrite := 3.75e-06, cacheRead := 3e-07 }),
    ("anthropic.claude-3-haiku-20240307-v1:0", { input := 2.5e-07, output := 1.25e-06 }),
    ("anthropic.claude-haiku-4-5-20251001-v1:0",
      { input := 1.1e-06, output := 5.5e-06, cacheWrite := 1.375e-06, cacheRead := 1.1e-07 }),
    ("anthropic.claude-opus-4-1-20250805-v1:0",
      { input := 1.5e-05, output := 7.5e-05, cacheWrite := 1.875e-05, cacheRead := 1.5e-06 }),
    ("anthropic.claude-opus-4-20250514-v1:0",
      { input := 1.5e-05, output := 7.5e-05, cacheWrite := 1.875e-05, cacheRead := 1.5e-06 }),
    ("anthropic.claude-sonnet-4-20250514-v1:0",
      { input := 3e-06, output := 1.5e-05, cacheWrite := 3.75e-06, cacheRead := 3e-07 }),
    ("anthropic.claude-sonnet-4-5-20250929-v1:0",
      { input := 3.3e-06, output := 1.65e-05, cacheWrite := 4.125e-06, cacheRead := 3.3e-07 }),
    ("chatgpt-4o-latest", { input := 5e-06, output := 1.5e-05 }),
    ("claude-3-5-haiku-20241022",
      { input := 8e-07, output := 4e-06, cacheWrite := 1e-06, cacheRead := 8e-08 }),
    ("claude-3-5-haiku-latest",
      { input := 8e-07, output := 4e-06, cacheWrite := 1e-06, cacheRead := 8e-08 }),
    ("claude-3-5-sonnet-20240620",
      { input := 3e-06, output := 1.5e-05, cacheWrite := 3.75e-06, cacheRead := 3e-07 }),
    ("claude-3-5-sonnet-20241022",
      { input := 3e-06, output := 1.5e-05, cacheWrite := 3.75e-06, cacheRead := 3e-07 }),
    ("claude-3-5-sonnet-latest",
      { input := 3e-06, output := 1.5e-05, cacheWrite := 3.75e-06, cacheRead := 3e-07 }),
    ("claude-3-7-sonnet-20250219",
      { input := 3e-06, output := 1.5e-05, cacheWrite := 3.75e-06, cacheRead := 3e-07 }),
    ("claude-3-7-sonnet-latest",
      { input := 3e-06, output := 1.5e-05, cacheWrite := 3.75e-06, cacheRead := 3e-07 }),
    ("claude-3-haiku-20240307",
      { input := 2.5e-07, output := 1.25e-06, cacheWrite := 3e-07, cacheRead := 3e-08 }),
    ("claude-3-opus-20240229",
      { input := 1.5e-05, output := 7.5e-05, cacheWrite := 1.875e-05, cacheRead := 1.5e-06 }),
    ("claude-3-opus-latest",
      { input := 1.5e-05, output := 7.5e-05, cacheWrite := 1.875e-05, cacheRead := 1.5e-06 }),
    ("claude-3-sonnet-20240229", { input := 3e-06, output := 1.5e-05 }),
    ("claude-4-opus-20250514",
      { input := 1.5e-05, output := 7.5e-05, cacheWrite := 1.875e-05,
        cacheWriteAbove1Hour := 3e-05, cacheRead := 1.5e-06 }),
    ("claude-4-sonnet-20250514",
      { input := 3e-06, output := 1.5e-05, cacheWrite := 3.75e-06, cacheWriteAbove1Hour := 6e-06,
        cacheWriteAbove200k := 7.5e-06, cacheRead := 3e-07, inputAbove200k := 6e-06,
        outputAbove200k := 2.25e-05 }),
    ("claude-haiku-4-5",
      { input := 1e-06, output := 5e-06, cacheWrite := 1.25e-06, cacheWriteAbove1Hour := 2e-06,
        cacheRead := 1e-07 }),
    ("claude-haiku-4-5-20251001",
      { input := 1e-06, output := 5e-06, cacheWrite := 1.25e-06, cacheWriteAbove1Hour := 2e-06,
        cacheRead := 1e-07 }),
    ("claude-opus-4-1",
      { input := 1.5e-05, output := 7.5e-05, cacheWrite := 1.875e-05,
        cacheWriteAbove1Hour := 3e-05, cacheRead := 1.5e-06 }),
    ("claude-opus-4-1-20250805",
      { input := 1.5e-05, output := 7.5e-05, cacheWrite := 1.875e-05,
        cacheWriteAbove1Hour := 3e-05, cacheRead := 1.5e-06 }),
    ("claude-opus-4-20250514",
      { input := 1.5e-05, output := 7.5e-05, cacheWrite := 1.875e-05,
        cacheWriteAbove1Hour := 3e-05, cacheRead := 1.5e-06 }),
    ("claude-opus-4-5",
      { input := 5e-06, output := 2.5e-05, cacheWrite := 6.25e-06, cacheWriteAbove1Hour := 1e-05,
        cacheRead := 5e-07 }),
    ("claude-opus-4-5-20251101",
      { input := 5e-06, output := 2.5e-05, cacheWrite := 6.25e-06, cacheWriteAbove1Hour := 1e-05,
        cacheRead := 5e-07 }),
    ("claude-sonnet-4-20250514",
      { input := 3e-06, output := 1.5e-05, cacheWrite := 3.75e-06, cacheWriteAbove1Hour := 6e-06,
        cacheWriteAbove200k := 7.5e-06, cacheRead := 3e-07, inputAbove200k := 6e-06,
        outputAbove200k := 2.25e-05 }),
    ("claude-sonnet-4-5",
      { input := 3e-06, output := 1.5e-05, cacheWrite := 3.75e-06, cacheWriteAbove1Hour := 6e-06,
        cacheWriteAbove200k := 7.5e-06, cacheRead := 3e-07, inputAbove200k := 6e-06,
        outputAbove200k := 2.25e-05 }),
    ("claude-sonnet-4-5-20250929",
      { input := 3e-06, output := 1.5e-05, cacheWrite := 3.75e-06, cacheWriteAbove1Hour := 6e-06,
        cacheWriteAbove200k := 7.5e-06, cacheRead := 3e-07, inputAbove200k := 6e-06,
        outputAbove200k := 2.25e-05 }),
    ("deepseek/deepseek-chat",
      { input := 2.7e-07, output := 1.1e-06, cacheWrite := 0.0, cacheRead := 7e-08 }),
    ("deepseek/deepseek-reasoner", { input := 5.5e-07, output := 2.19e-06, cacheRead := 1.4e-07 }),
    ("gemini-1.5-flash", { input := 7.5e-08, output := 3e-07 }),
    ("gemini-1.5-pro", { input := 1.25e-06, output := 5e-06 }),
    ("gemini-2.0-flash", { input := 1.5e-07, output := 6e-07, cacheRead := 3.75e-08 }),
    ("gemini-2.0-flash-lite", { input := 7.5e-08, output := 3e-07 }),
    ("gemini-2.5-flash", { input := 3e-07, output := 2.5e-06, cacheRead := 7.5e-08 }),
    ("gemini-2.5-flash-lite", { input := 1e-07, output := 4e-07, cacheRead := 2.5e-08 }),
    ("gemini-2.5-pro",
      { input := 1.25e-06, output := 1e-05, cacheRead := 3.125e-07, inputAbove200k := 2.5e-06,
        outputAbove200k := 1.5e-05 }),
    ("gemini/gemini-2.0-flash", { input := 1e-07, output := 4e-07, cacheRead := 2.5e-08 }),
    ("gemini/gemini-2.5-flash", { input := 3e-07, output := 2.5e-06, cacheRead := 7.5e-08 }),
    ("gemini/gemini-2.5-pro",
      { input := 1.25e-06, output := 1e-05, cacheRead := 3.125e-07, inputAbove200k := 2.5e-06,
        outputAbove200k := 1.5e-05 }),
    ("gpt-3.5-turbo", { input := 5e-07, output := 1.5e-06 }),
    ("gpt-4", { input := 3e-05, output := 6e-05 }),
    ("gpt-4-turbo", { input := 1e-05, output := 3e-05 }),
    ("gpt-4.1", { input := 2e-06, output := 8e-06, cacheRead := 5e-07 }),
    ("gpt-4.1-mini", { input := 4e-07, output := 1.6e-06, cacheRead := 1e-07 }),
    ("gpt-4.1-nano", { input := 1e-07, output := 4e-07, cacheRead := 2.5e-08 }),
    ("gpt-4o", { input := 2.5e-06, output := 1e-05, cacheRead := 1.25e-06 }),
    ("gpt-4o-2024-05-13", { input := 5e-06, output := 1.5e-05 }),
    ("gpt-4o-2024-08-06", { input := 2.5e-06, output := 1e-05, cacheRead := 1.25e-06 }),
    ("gpt-4o-2024-11-20", { input := 2.5e-06, output := 1e-05, cacheRead := 1.25e-06 }),
    ("gpt-4o-mini", { input := 1.5e-07, output := 6e-07, cacheRead := 7.5e-08 }),
    ("gpt-4o-mini-2024-07-18", { input := 1.5e-07, output := 6e-07, cacheRead := 7.5e-08 }),
    ("gpt-5", { input := 1.25e-06, output := 1e-05, cacheRead := 1.25e-07 }),
    ("gpt-5-chat-latest", { input := 1.25e-06, output := 1e-05, cacheRead := 1.25e-07 }),
    ("gpt-5-mini", { input := 2.5e-07, output := 2e-06, cacheRead := 2.5e-08 }),
    ("gpt-5-nano", { input := 5e-08, output := 4e-07, cacheRead := 5e-09 }),
    ("groq/llama-3.1-8b-instant", { input := 5e-08, output := 8e-08 }),
    ("groq/llama-3.3-70b-versatile", { input := 5.9e-07, output := 7.9e-07 }),
    ("mistral/codestral-latest", { input := 1e-06, output := 3e-06 }),
    ("mistral/mistral-large-latest", { input := 2e-06, output := 6e-06 }),
    ("mistral/mistral-small-latest", { input := 1e-07, output := 3e-07 }),
    ("o1", { input := 1.5e-05, output := 6e-05, cacheRead := 7.5e-06 }),
    ("o1-mini", { input := 1.1e-06, output := 4.4e-06, cacheRead := 5.5e-07 }),
    ("o3", { input := 2e-06, output := 8e-06, cacheRead := 5e-07 }),
    ("o3-mini", { input := 1.1e-06, output := 4.4e-06, cacheRead := 5.5e-07 }),
    ("o3-pro", { input := 2e-05, output := 8e-05 }),
    ("o4-mini", { input := 1.1e-06, output := 4.4e-06, cacheRead := 2.75e-07 }),
    ("vertex_ai/claude-3-7-sonnet@20250219",
      { input := 3e-06, output := 1.5e-05, cacheWrite := 3.75e-06, cacheRead := 3e-07 }),
    ("vertex_ai/claude-opus-4@20250514",
      { input := 1.5e-05, output := 7.5e-05, cacheWrite := 1.875e-05, cacheRead := 1.5e-06 }),
    ("vertex_ai/claude-sonnet-4@20250514",
      { input := 3e-06, output := 1.5e-05, cacheWrite := 3.75e-06, cacheRead := 3e-07 }),
    ("xai/grok-3", { input := 3e-06, output := 1.5e-05, cacheRead := 7.5e-07 }),
    ("xai/grok-3-mini", { input := 3e-07, output := 5e-07, cacheRead := 7.5e-08 }),
    ("xai/grok-4", { input := 3e-06, output := 1.5e-05, cacheRead := 7.5e-07 }) ]

/-- The table of the bundled price list. -/
def Table.bundled : Table :=
  .ofRates (.ofList bundledRates)

end TokenTariff
