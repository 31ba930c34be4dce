import ArticleArchive.Json.Value

namespace ArticleArchive.SampleCorpus

def rustLocalizations : Json :=
  .arr [.ofFields [("language", .str "zh".toList), ("title", .str "Rust 入门".toList),
    ("summary", .str "初识所有权与借用。".toList),
    ("content", .str "Rust 在没有垃圾回收的情况下保证内存安全。".toList)]]

def category (id : Int) (name : String) : Json :=
  .ofFields [("id", .int id), ("name", .str name.toList)]

def row (id : Int) (title createdAt : String) (viewCount : Int) (category : Json)
    (summary content : String) (localizations : Json) : Json :=
  .ofFields [("id", .int id), ("title", .str title.toList), ("summary", .str summary.toList),
    ("content", .str content.toList), ("category", category),
    ("created_at", .str createdAt.toList), ("view_count", .int viewCount),
    ("translations", localizations)]

def rows : List Json := [
  row 1 "Intro to Rust" "2024-01-10T09:00:00" 50 (category 1 "Programming")
    "A gentle first look at **ownership** and borrowing."
    ("# Intro to Rust\n\nRust gives you memory safety without a garbage collector. This post " ++
      "walks through `cargo new`, ownership and the borrow checker.") rustLocalizations,
  row 2 "Go Basics" "2024-03-01T12:30:00" 200 (category 1 "Programming")
    "Goroutines, channels and the basics of the Go toolchain."
    ("Go is a small language. These basics cover goroutines, channels and [the " ++
      "tour](https://go.dev/tour).") .null,
  row 3 "Self-hosting a blog with Docker" "2024-06-01T08:00:00" 1200 (category 2 "DevOps")
    ""
    ("Running the blog behind a reverse proxy with Docker Compose, automatic TLS and nightly " ++
      "backups.") .null,
  row 4 "Writing a search query parser" "2024-06-30T18:45:00" 340 (category 1 "Programming")
    "Tokenizing quoted phrases, field filters and exclusions."
    ("A small recursive scanner handles \"exact phrases\", field:value pairs and -exclusions " ++
      "before a parser builds the AST.") .null,
  row 5 "Notes from a trip to Kyoto" "2023-11-20T07:15:00" 90 (category 3 "Travel")
    "Temples, tea and too many photos."
    "![Fushimi Inari](/media/inari.jpg)\n\nTwo weeks in Kyoto in the rain season." .null]

end ArticleArchive.SampleCorpus
