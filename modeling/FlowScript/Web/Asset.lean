/-!
# Assets

The files of the web page: the page itself, what it does and how it looks.
-/

namespace FlowScript.Web

/-- A file that is served as it is. -/
structure Asset where
  name : String
  mediaType : String
  content : String

namespace Asset

/-- A text of lines, each with its line break. -/
def ofLines (lines : List String) : String :=
  String.join (lines.map (fun line => line ++ "\n"))

/-- The page. -/
def page : Asset :=
  { name := "index.html"
    mediaType := "text/html; charset=utf-8"
    content := ofLines
      ["<!doctype html>",
        "<html lang=\"en\">",
        "<head>",
        "  <meta charset=\"utf-8\">",
        "  <title>flowc</title>",
        "  <link rel=\"stylesheet\" href=\"style.css\">",
        "</head>",
        "<body>",
        "  <header>",
        "    <h1>flowc</h1>",
        "    <span id=\"status\">connecting…</span>",
        "  </header>",
        "  <main>",
        "    <section>",
        "      <h2>Flow</h2>",
        "      <textarea id=\"flow\" spellcheck=\"false\" placeholder=\"Paste a flow export "
          ++ "here\"></textarea>",
        "      <div class=\"actions\">",
        "        <button id=\"compile\">Compile</button>",
        "        <button id=\"run\">Run</button>",
        "      </div>",
        "      <h2>Diagnostics</h2>",
        "      <ul id=\"diagnostics\"></ul>",
        "    </section>",
        "    <section>",
        "      <h2>Script <small id=\"source\"></small></h2>",
        "      <pre id=\"script\"></pre>",
        "      <h2>Output</h2>",
        "      <pre id=\"output\"></pre>",
        "      <div id=\"figures\"></div>",
        "    </section>",
        "  </main>",
        "  <script src=\"app.js\"></script>",
        "</body>",
        "</html>"] }

/-- What the page does. -/
def behaviour : Asset :=
  { name := "app.js"
    mediaType := "text/javascript; charset=utf-8"
    content := ofLines
      ["\"use strict\";",
        "",
        "const $ = (id) => document.getElementById(id);",
        "",
        "function showCompilation(c) \x7b",
        "  $(\"script\").textContent = c.error ? `# $\x7bc.error\x7d\\n$\x7bc.script || \"\"\x7d` "
          ++ ": c.script;",
        "  $(\"source\").textContent = c.source || c.flowName || \"\";",
        "  const list = $(\"diagnostics\");",
        "  list.innerHTML = \"\";",
        "  for (const d of [...(c.issues || []).map((i) => (\x7b severity: \"warning\", code: "
          ++ "i.kind, message: i.message \x7d)), ...(c.diagnostics || [])]) \x7b",
        "    const li = document.createElement(\"li\");",
        "    li.className = d.severity;",
        "    li.textContent = `[$\x7bd.code\x7d] $\x7bd.message\x7d`;",
        "    list.appendChild(li);",
        "  \x7d",
        "\x7d",
        "",
        "function showRun(run) \x7b",
        "  $(\"output\").textContent = (run.output?.lines || []).join(\"\\n\");",
        "  const figures = $(\"figures\");",
        "  figures.innerHTML = \"\";",
        "  for (const f of run.output?.figures || []) \x7b",
        "    const img = document.createElement(\"img\");",
        "    img.src = f.dataUri;",
        "    figures.appendChild(img);",
        "  \x7d",
        "\x7d",
        "",
        "async function post(path) \x7b",
        "  const res = await fetch(path, \x7b",
        "    method: \"POST\",",
        "    headers: \x7b \"Content-Type\": \"application/json\" \x7d,",
        "    body: $(\"flow\").value,",
        "  \x7d);",
        "  const body = await res.json();",
        "  if (!res.ok) \x7b",
        "    $(\"script\").textContent = `# $\x7bbody.error\x7d`;",
        "    return;",
        "  \x7d",
        "  if (body.run) showRun(body.run);",
        "  if (body.error) $(\"output\").textContent = body.error;",
        "\x7d",
        "",
        "function subscribe(topic, onData) \x7b",
        "  const source = new EventSource(`/api/subscribe/$\x7btopic\x7d`);",
        "  source.onopen = () => \x7b $(\"status\").textContent = \"live\"; \x7d;",
        "  source.onerror = () => \x7b $(\"status\").textContent = \"disconnected\"; \x7d;",
        "  source.onmessage = (msg) => \x7b",
        "    const event = JSON.parse(msg.data);",
        "    onData(event.type, event.data);",
        "  \x7d;",
        "\x7d",
        "",
        "subscribe(\"compilation\", (type, data) => showCompilation(data));",
        "subscribe(\"run\", (type, data) => \x7b if (type === \"finished\") showRun(data); \x7d);",
        "",
        "$(\"compile\").addEventListener(\"click\", () => post(\"/api/compile\"));",
        "$(\"run\").addEventListener(\"click\", () => post(\"/api/run\"));"] }

/-- How the page looks. -/
def style : Asset :=
  { name := "style.css"
    mediaType := "text/css; charset=utf-8"
    content := ofLines
      ["body \x7b font-family: system-ui, sans-serif; margin: 0; \x7d",
        "header \x7b display: flex; align-items: baseline; gap: 1rem; padding: 0.5rem 1rem; "
          ++ "background: #222; color: #eee; \x7d",
        "header h1 \x7b margin: 0; font-size: 1.2rem; \x7d",
        "main \x7b display: grid; grid-template-columns: 1fr 1fr; gap: 1rem; padding: 1rem; "
          ++ "\x7d",
        "textarea \x7b width: 100%; height: 40vh; font-family: monospace; \x7d",
        "pre \x7b background: #f5f5f5; padding: 0.5rem; overflow: auto; max-height: 45vh; \x7d",
        ".actions \x7b margin: 0.5rem 0; display: flex; gap: 0.5rem; \x7d",
        "li.warning \x7b color: #a60; \x7d",
        "li.info \x7b color: #06a; \x7d",
        "#figures img \x7b max-width: 100%; \x7d"] }

/-- All assets. -/
def all : List Asset := [page, behaviour, style]

end Asset

end FlowScript.Web
